/-
# The trusted-binaries check

`hitlservice/trustedbinaries.go`: an allow that a prefix list would grant is withheld unless
the program resolves to a file under a trusted directory, with the declared digest.

What the check asks of the machine (the search path, symbolic links, file contents) is
`Host`, together with the library functions the rest of the gate calls.  Paths are POSIX
paths: the branches for Windows are not modelled.
-/
import Contenox.Policy.Document
import Contenox.Policy.Structure

namespace Contenox.Hitl

open Lib Shell GoStrings

/-- The machine the gate runs on. -/
structure Host where
  goos : String
  parser : Parser
  /-- `exec.LookPath` -/
  lookPath : String → Option String
  /-- `filepath.EvalSymlinks` -/
  evalSymlinks : String → Option String
  /-- `binarySHA256`: the digest of a file, or why it could not be read -/
  binarySHA256 : String → Except String String
  /-- `%q` of `fmt` -/
  quote : String → String
  /-- `path.Match`, false for a malformed pattern -/
  pathMatch : String → String → Bool
  /-- the host name of a URL that parses -/
  urlHostname : String → Option String
  /-- `net.ParseIP` succeeds -/
  isIP : String → Bool

/-! ## 1. Resolving a program -/

/-- Why a program did not resolve. -/
inductive ResolveError
  | relative
  | unresolved
  deriving DecidableEq, Repr

def commandHasPathSeparator (name : String) : Bool := contains name "/"

/-- `resolveBinary`: an absolute path is taken as it is, a relative one is refused, a bare
name is looked up; then symbolic links are resolved. -/
def resolveBinary (host : Host) (name : String) : Except ResolveError String :=
  let name := trimSpace name
  let resolve (candidate : String) : Except ResolveError String :=
    match host.evalSymlinks candidate with
    | some real => .ok (clean real)
    | none => .error .unresolved
  if name = "" then .error .unresolved
  else if isAbs name then resolve name
  else if commandHasPathSeparator name then .error .relative
  else
    match host.lookPath name with
    | some candidate => resolve candidate
    | none => .error .unresolved

/-! ## 2. The check -/

def TrustedBinaries.enforced (tb : TrustedBinaries) : Bool :=
  !tb.dirs.isEmpty || !tb.hashes.isEmpty

def underAnyTrustedDir (host : Host) (real : String) (dirs : List String) : Bool :=
  dirs.any fun dir =>
    let dir := trimSpace dir
    let key := clean ((host.evalSymlinks dir).getD dir)
    let start := if hasSuffix key "/" then key else key ++ "/"
    dir ≠ "" && hasPrefix (clean real) start

/-- `lookupDeclaredHash`: the path as declared, else a declaration that cleans to it. -/
def lookupDeclaredHash (hashes : List (String × String)) (real : String) : Option String :=
  match hashes.lookup real with
  | some h => some (trimSpace h)
  | none =>
    (hashes.find? fun e => clean e.1 = clean real).map fun e =>
      trimSpace e.2

/-- `verifyCommand`: the refusal, or `none` for a program that passes. -/
def verifyCommand (host : Host) (tb : TrustedBinaries) (name : String) : Option String :=
  match resolveBinary host name with
  | .error .relative =>
    some ("command " ++ host.quote name ++ " is a relative path the policy cannot resolve — " ++
      "allow refused; name the command or give it an absolute path")
  | .error .unresolved =>
    some ("command " ++ host.quote name ++
      " does not resolve to an executable on this host — allow refused")
  | .ok real =>
    if !tb.dirs.isEmpty && !underAnyTrustedDir host real tb.dirs then
      some ("binary at " ++ real ++ " is not under any trusted_binaries.dirs entry — allow " ++
        "refused; declare its directory after verifying what it is")
    else if tb.hashes.isEmpty then none
    else
      match lookupDeclaredHash tb.hashes real with
      | none =>
        some ("binary at " ++ real ++ " has no declared hash — allow refused; declare it with " ++
          "`contenox hitl trust " ++ real ++ "`")
      | some want =>
        match host.binarySHA256 real with
        | .error e =>
          some ("binary at " ++ real ++ " could not be read for hashing (" ++ e ++
            ") — allow refused")
        | .ok got =>
          if equalFold got want then none
          else
            some ("binary at " ++ real ++ " does not match the declared hash — re-declare " ++
              "after verifying the upgrade, or investigate")

/-- A program the trusted-binaries check lets pass. -/
def Verified (host : Host) (tb : TrustedBinaries) (name : String) : Prop :=
  verifyCommand host tb name = none

/-! ## 3. What passing depends on -/

variable {host : Host} {tb : TrustedBinaries} {name name' : String}

/-- Passing is a property of the file the program resolves to. -/
theorem verified_congr (h : resolveBinary host name = resolveBinary host name')
    (hv : Verified host tb name) : Verified host tb name' := by
  unfold Verified verifyCommand at hv ⊢
  rw [← h]
  cases hr : resolveBinary host name with
  | error e => cases e <;> simp [hr] at hv
  | ok real => simpa [hr] using hv

/-- A program that passes resolves: it is absolute or has no slash in it. -/
theorem Verified.resolves
    (hv : Verified host tb name) : ∃ real, resolveBinary host name = .ok real := by
  unfold Verified verifyCommand at hv
  cases hr : resolveBinary host name with
  | error e => cases e <;> simp [hr] at hv
  | ok real => exact ⟨real, rfl⟩

/-- A word that a resolution can succeed for at all. -/
def Resolvable (name : String) : Prop :=
  isAbs name = true ∨ commandHasPathSeparator name = false

theorem Verified.resolvable (hv : Verified host tb name) : Resolvable (trimSpace name) := by
  obtain ⟨real, hr⟩ := hv.resolves
  by_cases habs : isAbs (trimSpace name) = true
  · exact .inl habs
  right
  by_contra hsep
  have hsep' : commandHasPathSeparator (trimSpace name) = true := by simpa using hsep
  by_cases hne : trimSpace name = ""
  · simp [resolveBinary, hne] at hr
  · simp [resolveBinary, hne, habs, hsep'] at hr

/-- The check reads a program's name up to the white space around it. -/
theorem verified_of_trimSpace_eq {name' : String} (h : trimSpace name = trimSpace name')
    (hv : Verified host tb name) : Verified host tb name' := by
  refine verified_congr ?_ hv
  unfold resolveBinary
  rw [h]

end Contenox.Hitl
