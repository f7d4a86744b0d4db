/-
# Containment of paths in a workspace root

`Contain` resolves a candidate against a root and refuses what leaves it or lands in the runtime's
control plane (`vfs.go`, `controlplane.go`).  A path that does not exist is allowed: `resolveLeaf`
takes components off its end until the rest resolves, and puts them back by name.

A missing component is put back by name because nothing is there to follow.  That is wrong for one
kind of missing component: a DANGLING link, which `EvalSymlinks` reports as missing too.
`resolveLeaf` looks for one at the end of the path only, with `Lstat`.  Where an earlier component
dangles, or the last one behind more links than `Lstat` follows, the returned path goes through the
link, and leads where the link points (`contain_sound`, `dangling_link_escapes`).

Paths are absolute and cleaned, hence lists of names; the texts of a root and of a candidate are
read with `components`.
-/
import Contenox.Lib.FileTree

namespace Contenox.Vfs

open Lib FileTree GoStrings

/-! ## 1. The machine -/

/-- A file tree, the working directory, and how many links the kernel follows. -/
structure Machine where
  entries : List (String × Node)
  cwd : List String
  cwdNames : ∀ c ∈ cwd, IsName c
  kernelLinks : Nat

variable (m : Machine)

def Machine.tree : Node := .dir m.entries

/-- `filepath.Abs`. -/
def Machine.abs (path : String) : List String :=
  lexical (if isAbs path then [] else m.cwd) (components path)

/-- `filepath.EvalSymlinks` of an absolute path: it follows 255 links. -/
def Machine.evalSymlinks (p : List String) : Except WalkError (List String) :=
  walk m.tree 255 [] p

/-- `os.Lstat`: the kernel follows the links before the last component. -/
def Machine.lstat (p : List String) : Option Node :=
  match walk m.tree m.kernelLinks [] p.dropLast with
  | .error _ => none
  | .ok d => m.tree.lookup (d ++ p.getLast?.toList)

def pathText (p : List String) : String := "/" ++ join "/" p

inductive VfsError
  | emptyRoot
  | rootResolution (e : WalkError)
  | pathResolution (e : WalkError)
  | unresolvedLink (p : List String)
  | escape (candidate root : String)
  | controlPlane (candidate : String) (denied : List String)
  | controlPlanePath (path : String) (e : VfsError)

/-- The text of an error; `errno` prints an error of the system and `quote` is `%q`. -/
def VfsError.text (errno : WalkError → String) (quote : String → String) : VfsError → String
  | .emptyRoot => "vfs: empty root"
  | .rootResolution e => "vfs: root resolution error: " ++ errno e
  | .pathResolution e => "vfs: path resolution error: " ++ errno e
  | .unresolvedLink p => "vfs: path resolution error: path escapes workspace root: " ++ pathText p ++
      " is a symlink whose target cannot be resolved"
  | .escape candidate root =>
      "path escapes workspace root: " ++ candidate ++ " escapes " ++ root
  | .controlPlane candidate denied =>
      "path is inside the runtime control plane: " ++ candidate ++
      " is inside the runtime's control plane (" ++ pathText denied ++
      "), which is never a workspace — the runtime never lets an agent reach its own governing " ++
      "config, database, or policies"
  | .controlPlanePath path e =>
      "vfs: control-plane path " ++ quote path ++ ": " ++ e.text errno quote

/-! ## 2. Containment -/

/-- `ResolveRoot`. -/
def resolveRoot (root : String) : Except VfsError (List String) :=
  if trimSpace root = "" then .error .emptyRoot
  else
    match m.evalSymlinks (m.abs root) with
    | .ok real => .ok real
    | .error .notExist => .ok (m.abs root)
    | .error e => .error (.rootResolution e)

/-- `filepath.Rel` of two cleaned absolute paths. -/
def rel : List String → List String → List String
  | b :: base, t :: targ =>
    if b = t then rel base targ else List.replicate (base.length + 1) ".." ++ t :: targ
  | base, targ => List.replicate base.length ".." ++ targ

/-- `within`: the relative path does not start by going up. -/
def within (realRoot p : List String) : Bool :=
  match rel realRoot p with
  | [] => true
  | c :: _ => c ≠ ".."

/-- The loop of `resolveLeaf`; the components still to try stand last first. -/
def probeFrom (m : Machine) : List String → List String → Except VfsError (List String)
  | probe, missing =>
    match m.evalSymlinks probe.reverse with
    | .ok real => .ok (real ++ missing)
    | .error .notExist =>
      match probe with
      | [] => .error (.pathResolution .notExist)
      | b :: parent => probeFrom m parent (b :: missing)
    | .error e => .error (.pathResolution e)

def resolveLeaf (p : List String) : Except VfsError (List String) :=
  match m.evalSymlinks p with
  | .ok real => .ok real
  | .error .notExist =>
    if ((m.lstat p).map Node.isLink).getD false then .error (.unresolvedLink p)
    else probeFrom m p.reverse []
  | .error e => .error (.pathResolution e)

/-- The candidate as an absolute path. -/
def locate (realRoot : List String) (candidate : String) : List String :=
  lexical (if isAbs candidate then [] else realRoot) (components candidate)

/-- `containWithinOpts`, not privileged. -/
def containWithin (denied : List (List String)) (realRoot : List String)
    (displayRoot candidate : String) : Except VfsError (List String) :=
  match resolveLeaf m (locate realRoot candidate) with
  | .error e => .error e
  | .ok real =>
    if within realRoot real = false then .error (.escape candidate displayRoot)
    else
      match denied.find? (within · real) with
      | some d => .error (.controlPlane candidate d)
      | none => .ok real

/-- `Contain`. -/
def contain (denied : List (List String)) (root candidate : String) :
    Except VfsError (List String) :=
  match resolveRoot m root with
  | .error e => .error e
  | .ok realRoot => containWithin m denied realRoot root candidate

/-- The loop of `SetControlPlaneDenied`. -/
def registerFrom (m : Machine) (resolved : List (List String)) :
    List String → Except VfsError (List (List String))
  | [] => .ok resolved
  | p :: rest =>
    if trimSpace p = "" then registerFrom m resolved rest
    else
      match resolveRoot m p with
      | .error e => .error (.controlPlanePath p e)
      | .ok r => registerFrom m (if r ∈ resolved then resolved else resolved ++ [r]) rest

/-- `SetControlPlaneDenied`. -/
def setControlPlaneDenied (paths : List String) : Except VfsError (List (List String)) :=
  registerFrom m [] paths

/-! ## 3. Below a directory -/

/-- A relative path goes up first exactly when the one path is not below the other. -/
theorem within_iff {base targ : List String} (h : ∀ c ∈ targ, IsName c) :
    within base targ = true ↔ base <+: targ := by
  unfold within
  induction base generalizing targ with
  | nil =>
    cases targ with
    | nil => simp [rel]
    | cons t targ => simpa [rel] using (h t List.mem_cons_self).2.2
  | cons b base ih =>
    cases targ with
    | nil => simp [rel, List.replicate_succ]
    | cons t targ =>
      rw [rel]
      by_cases hbt : b = t
      · subst hbt
        rw [if_pos rfl, ih fun c hc => h c (List.mem_cons_of_mem _ hc)]
        simp
      · simp [List.replicate_succ, hbt]

/-! ## 4. What is resolved -/

section

variable {m : Machine} {p q : List String}

/-- A path whose parent resolves and which is itself a link that does not: a dangling link. -/
structure DanglingLink (m : Machine) (parent : List String) (c : String) : Prop where
  missing : m.evalSymlinks (parent ++ [c]) = .error .notExist
  link : ∃ d target, m.evalSymlinks parent = .ok d ∧
    m.tree.lookup (d ++ [c]) = some (.link target)

/-- A component before the last one is a dangling link, or the last one is and `Lstat` does not
get to it. -/
def Dangles (m : Machine) (p : List String) : Prop :=
  ∃ parent c, DanglingLink m parent c ∧
    (parent ++ [c] <+: p.dropLast ∨ parent ++ [c] = p ∧ m.lstat p = none)

theorem Dangles.component (h : Dangles m p) :
    ∃ parent c, parent ++ [c] <+: p ∧ DanglingLink m parent c := by
  obtain ⟨parent, c, hdangling, hpre | ⟨rfl, -⟩⟩ := h
  · exact ⟨parent, c, hpre.trans (List.dropLast_prefix p), hdangling⟩
  · exact ⟨parent, c, List.prefix_rfl, hdangling⟩

theorem real_root (m : Machine) : Real m.tree [] := ⟨_, rfl, rfl⟩

theorem real_of_evalSymlinks (h : m.evalSymlinks p = .ok q) : Real m.tree q :=
  real_of_walk (real_root m) (real_root m) h

theorem names_of_evalSymlinks (h : m.evalSymlinks p = .ok q) : ∀ c ∈ q, IsName c :=
  names_of_walk (fun _ hc => by cases hc) h

theorem leads_of_evalSymlinks (h : m.evalSymlinks p = .ok q) : Leads m.tree [] p q := by
  have hleads := leads_walk h (.done q)
  rwa [List.append_nil] at hleads

/-- The loop resolves a beginning of the path and puts back the rest, of which the first component
is missing. -/
theorem probeFrom_ok {probe missing : List String} (h : probeFrom m probe missing = .ok p) :
    ∃ front back d, probe.reverse = front ++ back ∧ m.evalSymlinks front = .ok d ∧
      p = d ++ back ++ missing ∧
      ∀ c rest, back = c :: rest → m.evalSymlinks (front ++ [c]) = .error .notExist := by
  induction probe generalizing missing with
  | nil =>
    rw [probeFrom] at h
    split at h
    · rename_i real hreal
      cases h
      exact ⟨[], [], real, rfl, hreal, by simp, nofun⟩
    · cases h
    · cases h
  | cons b probe ih =>
    rw [probeFrom] at h
    split at h
    · rename_i real hreal
      cases h
      exact ⟨_, [], real, (List.append_nil _).symm, hreal, by simp, nofun⟩
    · rename_i hmiss
      obtain ⟨front, back, d, hsplit, hd, rfl, hfirst⟩ := ih h
      refine ⟨front, back ++ [b], d, ?_, hd, by simp, ?_⟩
      · rw [List.reverse_cons, hsplit, List.append_assoc]
      intro c rest hc
      cases back with
      | nil =>
        obtain ⟨rfl, -⟩ := List.cons.inj hc
        rw [List.reverse_cons, hsplit, List.append_nil] at hmiss
        exact hmiss
      | cons x back =>
        obtain ⟨rfl, -⟩ := List.cons.inj hc
        exact hfirst x back rfl
    · cases h

/-- What `resolveLeaf` returns: the path resolved, or a beginning of it resolved with the rest put
back by name, the first of which is missing; and then `Lstat` sees no link at the path. -/
theorem resolveLeaf_ok (h : resolveLeaf m p = .ok q) :
    m.evalSymlinks p = .ok q ∨ ∃ front c rest d, p = front ++ c :: rest ∧
      m.evalSymlinks front = .ok d ∧ m.evalSymlinks (front ++ [c]) = .error .notExist ∧
      (∀ n, m.lstat p = some n → n.isLink = false) ∧ q = d ++ c :: rest := by
  unfold resolveLeaf at h
  split at h
  · rename_i real hreal
    cases h
    exact .inl hreal
  · rename_i hmiss
    split at h
    · cases h
    rename_i hstat
    obtain ⟨front, back, d, hsplit, hd, rfl, hfirst⟩ := probeFrom_ok h
    rw [List.reverse_reverse] at hsplit
    cases back with
    | nil =>
      rw [hsplit, List.append_nil, hd] at hmiss
      cases hmiss
    | cons c rest =>
      refine .inr ⟨front, c, rest, d, hsplit, hd, hfirst c rest rfl, fun n hn => ?_, by simp⟩
      simpa [hn] using hstat
  · cases h

/-- A path that resolves has no dangling link on it. -/
theorem not_dangles_of_evalSymlinks (h : m.evalSymlinks p = .ok q) : ¬ Dangles m p := by
  intro hdangles
  obtain ⟨parent, c, ⟨rest, rfl⟩, hdangling⟩ := hdangles.component
  have hmiss : m.evalSymlinks (parent ++ [c] ++ rest) = .error .notExist :=
    walk_missing_append hdangling.missing
  rw [h] at hmiss
  cases hmiss

/-- Nothing below a missing name is a link. -/
theorem noLinks_of_missing {d rest : List String} {c : String} (hd : Real m.tree d)
    (hmiss : m.tree.lookup (d ++ [c]) = none) : NoLinks m.tree (d ++ c :: rest) := by
  intro q hq n hn
  rcases List.prefix_or_prefix_of_prefix hq (List.prefix_append d (c :: rest)) with hqd | ⟨s, rfl⟩
  · exact noLinks_of_real hd q hqd n hn
  cases s with
  | nil =>
    rw [List.append_nil] at hn
    exact noLinks_of_real hd d List.prefix_rfl n hn
  | cons c' s =>
    obtain ⟨rfl, -⟩ := List.cons_prefix_cons.mp ((List.prefix_append_right_inj d).mp hq)
    rw [← List.singleton_append, ← List.append_assoc, lookup_append, hmiss] at hn
    cases hn

section

variable {front rest d : List String} {c : String} (hd : m.evalSymlinks front = .ok d)
  (hmiss : m.evalSymlinks (front ++ [c]) = .error .notExist)

include hd hmiss

/-- Where a path was resolved in part, the component that dangles is the first one put back. -/
theorem Dangles.link (h : Dangles m (front ++ c :: rest)) :
    ∃ target, m.tree.lookup (d ++ [c]) = some (.link target) := by
  obtain ⟨parent, c', hpre, hdangling⟩ := h.component
  obtain ⟨e, target, he, hlink⟩ := hdangling.link
  have hfront : parent = front := by
    have hpar : parent <+: front ++ c :: rest := (List.prefix_append parent [c']).trans hpre
    rcases List.prefix_or_prefix_of_prefix hpar (List.prefix_append front (c :: rest)) with
      ⟨s, hs⟩ | ⟨s, hs⟩
    · cases s with
      | nil => simpa using hs
      | cons x s =>
        -- the component after `parent` would lie on `front`, which resolves
        rw [← hs, List.append_assoc, List.prefix_append_right_inj, List.cons_append,
          List.cons_prefix_cons] at hpre
        obtain ⟨rfl, -⟩ := hpre
        have hback : m.evalSymlinks (parent ++ [c'] ++ s) = .error .notExist :=
          walk_missing_append hdangling.missing
        rw [List.append_assoc, List.singleton_append, hs, hd] at hback
        cases hback
    · cases s with
      | nil => simpa using hs.symm
      | cons x s =>
        rw [← hs, List.prefix_append_right_inj, List.cons_prefix_cons] at hpar
        obtain ⟨rfl, -⟩ := hpar
        have hback : m.evalSymlinks (front ++ [x] ++ s) = .error .notExist :=
          walk_missing_append hmiss
        rw [List.append_assoc, List.singleton_append, hs, he] at hback
        cases hback
  subst hfront
  rw [List.prefix_append_right_inj, List.cons_prefix_cons] at hpre
  obtain ⟨rfl, -⟩ := hpre
  rw [hd] at he
  cases he
  exact ⟨target, hlink⟩

/-- A link put back by name dangles, if `Lstat` sees no link at the path. -/
theorem dangles_of_link (hstat : ∀ n, m.lstat (front ++ c :: rest) = some n → n.isLink = false)
    {target : String} (hlink : m.tree.lookup (d ++ [c]) = some (.link target)) :
    Dangles m (front ++ c :: rest) := by
  refine ⟨front, c, ⟨hmiss, d, target, hd, hlink⟩, ?_⟩
  cases rest with
  | cons x rest =>
    rw [List.dropLast_append_of_ne_nil (List.cons_ne_nil c _), List.dropLast_cons_cons]
    exact .inl ((List.prefix_append_right_inj front).mpr
      (List.cons_prefix_cons.mpr ⟨rfl, List.nil_prefix⟩))
  | nil =>
    -- where the kernel's walk arrives at all, it arrives at the same directory
    refine .inr ⟨rfl, ?_⟩
    unfold Machine.lstat at hstat ⊢
    rw [List.dropLast_concat, List.getLast?_concat] at hstat ⊢
    cases hk : walk m.tree m.kernelLinks [] front with
    | error e => rfl
    | ok d' =>
      have hsame : d' = d := by
        have hleads := leads_walk hk (.done d')
        rw [List.append_nil] at hleads
        exact leads_unique hleads (leads_of_evalSymlinks hd)
      rw [hk, hsame] at hstat
      cases hstat _ hlink

end

/-- No link is on a resolved path exactly when no component of the path dangles. -/
theorem resolveLeaf_noLinks (hp : ∀ c ∈ p, IsName c)
    (h : resolveLeaf m p = .ok q) : NoLinks m.tree q ↔ ¬ Dangles m p := by
  rcases resolveLeaf_ok h with hreal | ⟨front, c, rest, d, rfl, hd, hmiss, hstat, rfl⟩
  · exact ⟨fun _ => not_dangles_of_evalSymlinks hreal,
      fun _ => noLinks_of_real (real_of_evalSymlinks hreal)⟩
  constructor
  · intro hno hdangles
    obtain ⟨target, hlink⟩ := hdangles.link hd hmiss
    have hpre : d ++ [c] <+: d ++ c :: rest :=
      (List.prefix_append_right_inj d).mpr (List.cons_prefix_cons.mpr ⟨rfl, List.nil_prefix⟩)
    cases hno _ hpre _ hlink
  · intro hnot
    rcases missing_of_walk (hp c (by simp)) hd hmiss with hnone | ⟨target, hlink⟩
    · exact noLinks_of_missing (real_of_evalSymlinks hd) hnone
    · exact absurd (dangles_of_link hd hmiss hstat hlink) hnot

/-- Where no component of the path dangles, it is resolved to where it leads. -/
theorem resolveLeaf_leads (hp : ∀ c ∈ p, IsName c)
    (h : resolveLeaf m p = .ok q) (hdangles : ¬ Dangles m p) : Leads m.tree [] p q := by
  rcases resolveLeaf_ok h with hreal | ⟨front, c, rest, d, rfl, hd, hmiss, hstat, rfl⟩
  · exact leads_of_evalSymlinks hreal
  have hnone := (missing_of_walk (hp c (by simp)) hd hmiss).resolve_right
    fun ⟨_, hlink⟩ => hdangles (dangles_of_link hd hmiss hstat hlink)
  have hleads : Leads m.tree d (c :: rest) (lexical (d ++ [c]) rest) :=
    .missing (hp c (by simp)) hnone
  rw [lexical_of_names fun x hx => hp x (by simp [hx]), List.append_assoc,
    List.singleton_append] at hleads
  exact leads_walk hd hleads

theorem resolveLeaf_names (hp : ∀ c ∈ p, IsName c)
    (h : resolveLeaf m p = .ok q) : ∀ c ∈ q, IsName c := by
  rcases resolveLeaf_ok h with hreal | ⟨front, c, rest, d, rfl, hd, -, -, rfl⟩
  · exact names_of_evalSymlinks hreal
  exact List.forall_mem_append.mpr ⟨names_of_evalSymlinks hd, (List.forall_mem_append.mp hp).2⟩

end

/-! ## 5. The guarantee -/

section

variable {m : Machine} {paths : List String} {denied : List (List String)} {root candidate : String}

theorem resolveRoot_names {r : List String} (h : resolveRoot m root = .ok r) :
    ∀ c ∈ r, IsName c := by
  unfold resolveRoot at h
  split at h
  · cases h
  split at h
  · rename_i real hreal
    cases h
    exact names_of_evalSymlinks hreal
  · cases h
    refine isName_of_mem_lexical ?_ _
    split
    · intro c hc
      cases hc
    · exact m.cwdNames
  · cases h

theorem locate_names {realRoot : List String} (h : ∀ c ∈ realRoot, IsName c) (candidate : String) :
    ∀ c ∈ locate realRoot candidate, IsName c := by
  refine isName_of_mem_lexical ?_ _
  split
  · intro c hc
    cases hc
  · exact h

theorem registerFrom_mem {resolved : List (List String)}
    (h : registerFrom m resolved paths = .ok denied) :
    (∀ r ∈ resolved, r ∈ denied) ∧
      ∀ p ∈ paths, trimSpace p ≠ "" → ∃ r ∈ denied, resolveRoot m p = .ok r := by
  induction paths generalizing resolved with
  | nil =>
    cases h
    exact ⟨fun _ hr => hr, nofun⟩
  | cons p paths ih =>
    rw [registerFrom] at h
    split at h
    · rename_i hblank
      obtain ⟨hkeep, hall⟩ := ih h
      refine ⟨hkeep, ?_⟩
      intro p' hp' hne
      rcases List.mem_cons.mp hp' with rfl | hp'
      · exact absurd hblank hne
      · exact hall p' hp' hne
    · split at h
      · cases h
      rename_i r hr
      obtain ⟨hkeep, hall⟩ := ih h
      have hmem : r ∈ denied ∧ ∀ x ∈ resolved, x ∈ denied := by
        split at hkeep
        · exact ⟨hkeep r ‹_›, hkeep⟩
        · exact ⟨hkeep r (by simp), fun x hx => hkeep x (List.mem_append_left _ hx)⟩
      refine ⟨hmem.2, ?_⟩
      intro p' hp' hne
      rcases List.mem_cons.mp hp' with rfl | hp'
      · exact ⟨r, hmem.1, hr⟩
      · exact hall p' hp' hne

variable {p : List String}

theorem contain_ok (h : contain m denied root candidate = .ok p) :
    ∃ realRoot, resolveRoot m root = .ok realRoot ∧
      resolveLeaf m (locate realRoot candidate) = .ok p ∧ realRoot <+: p ∧
      ∀ d ∈ denied, ¬ d <+: p := by
  unfold contain at h
  split at h
  · cases h
  rename_i realRoot hroot
  unfold containWithin at h
  split at h
  · cases h
  rename_i real hreal
  have hnames := resolveLeaf_names (locate_names (resolveRoot_names hroot) candidate) hreal
  split at h
  · cases h
  rename_i hwithin
  split at h
  · cases h
  rename_i hnone
  cases h
  refine ⟨realRoot, hroot, hreal, (within_iff hnames).mp (by simpa using hwithin), ?_⟩
  intro d hd hpre
  have hfound := List.find?_eq_none.mp hnone d hd
  exact hfound ((within_iff hnames).mpr hpre)

/-- The path is in the directory that a registered path leads to. -/
def InPlane (m : Machine) (registered : String) (p : List String) : Prop :=
  trimSpace registered ≠ "" ∧ ∃ d, Leads m.tree [] (m.abs registered) d ∧ d <+: p

/-- The control plane lies where it is registered, if its directories exist. -/
theorem not_inPlane (hreg : setControlPlaneDenied m paths = .ok denied)
    (hexist : ∀ d ∈ paths, trimSpace d ≠ "" → ∃ e, m.evalSymlinks (m.abs d) = .ok e)
    (hdenied : ∀ d ∈ denied, ¬ d <+: p) {d : String} (hd : d ∈ paths) : ¬ InPlane m d p := by
  rintro ⟨hne, e, hleads, hpre⟩
  obtain ⟨r, hr, hroot⟩ := (registerFrom_mem hreg).2 d hd hne
  obtain ⟨e', he'⟩ := hexist d hd hne
  unfold resolveRoot at hroot
  rw [if_neg hne, he'] at hroot
  cases hroot
  rw [leads_unique hleads (leads_of_evalSymlinks he')] at hpre
  exact hdenied _ hr hpre

/-- What `Contain` returns lies under the resolved root and outside the control plane, and it has
no link on it exactly when no component of the candidate before the last is a dangling link, nor the
last one unseen.  Where none is, a candidate that leads out of the root or into the control plane is
refused: one that ends in a dangling link among them. -/
theorem contain_sound (hreg : setControlPlaneDenied m paths = .ok denied)
    (hexist : ∀ d ∈ paths, trimSpace d ≠ "" → ∃ e, m.evalSymlinks (m.abs d) = .ok e) :
    (∀ p, contain m denied root candidate = .ok p → ∃ realRoot, resolveRoot m root = .ok realRoot ∧
      realRoot <+: p ∧ (∀ d ∈ paths, ¬ InPlane m d p) ∧
      (NoLinks m.tree p ↔ ¬ Dangles m (locate realRoot candidate))) ∧
    ∀ realRoot, resolveRoot m root = .ok realRoot → ¬ Dangles m (locate realRoot candidate) →
      ∀ q, Leads m.tree [] (locate realRoot candidate) q →
        (¬ realRoot <+: q ∨ ∃ d ∈ paths, InPlane m d q) →
        ∀ p, contain m denied root candidate ≠ .ok p := by
  constructor
  · intro p hp
    obtain ⟨realRoot, hroot, hleaf, hpre, hdenied⟩ := contain_ok hp
    have hnames := locate_names (resolveRoot_names hroot) candidate
    exact ⟨realRoot, hroot, hpre, fun d hd => not_inPlane hreg hexist hdenied hd,
      resolveLeaf_noLinks hnames hleaf⟩
  · intro realRoot hroot hdangles q hleads hout p hp
    obtain ⟨realRoot', hroot', hleaf, hpre, hdenied⟩ := contain_ok hp
    rw [hroot] at hroot'
    cases hroot'
    have hnames := locate_names (resolveRoot_names hroot) candidate
    obtain rfl := leads_unique hleads (resolveLeaf_leads hnames hleaf hdangles)
    rcases hout with hout | ⟨d, hd, hplane⟩
    · exact hout hpre
    · exact not_inPlane hreg hexist hdenied hd hplane

end

/-! ## 6. A link that dangles on the way -/

/-- A workspace `/w` with a link to a directory of it, a link to a path outside that does not
exist, and the control plane. -/
def linkedMachine : Machine where
  entries := [("w", .dir [("sub", .dir []), ("in", .link "sub"), ("out", .link "/gone"),
    (".ctl", .dir [])])]
  cwd := []
  cwdNames := nofun
  kernelLinks := 40

theorem not_dangles_out : ¬ Dangles linkedMachine ["w", "out"] := by
  rintro ⟨parent, c, ⟨-, d, target, hd, hlink⟩, hpre | ⟨-, hnone⟩⟩
  · obtain rfl : parent = [] := by
      simpa using hpre.length_le
    obtain rfl : c = "w" := by simpa using hpre
    cases hd
    cases hlink
  · cases hnone

/-- A new file behind a link of the workspace is resolved to where it leads, and the link that
points outside is refused. -/
theorem contain_sound_linked :
    (contain linkedMachine [["w", ".ctl"]] "/w" "in/new" = .ok ["w", "sub", "new"] ∧
    ∃ realRoot, resolveRoot linkedMachine "/w" = .ok realRoot ∧
      realRoot <+: ["w", "sub", "new"] ∧
      (∀ d ∈ ["/w/.ctl"], ¬ InPlane linkedMachine d ["w", "sub", "new"]) ∧
      (NoLinks linkedMachine.tree ["w", "sub", "new"] ↔
        ¬ Dangles linkedMachine (locate realRoot "in/new"))) ∧
    ∀ p, contain linkedMachine [["w", ".ctl"]] "/w" "out" ≠ .ok p := by
  have hcontain : contain linkedMachine [["w", ".ctl"]] "/w" "in/new" =
      .ok ["w", "sub", "new"] := rfl
  have hreg : setControlPlaneDenied linkedMachine ["/w/.ctl"] = .ok [["w", ".ctl"]] := rfl
  have hexist : ∀ d ∈ ["/w/.ctl"], trimSpace d ≠ "" →
      ∃ e, linkedMachine.evalSymlinks (linkedMachine.abs d) = .ok e := by
    intro d hd _
    rw [List.mem_singleton.mp hd]
    exact ⟨["w", ".ctl"], rfl⟩
  have hpath : locate ["w"] "out" = ["w", "out"] := by decide
  have hleads : Leads linkedMachine.tree [] ["w", "out"] ["gone"] :=
    .enter (by decide) rfl rfl (.follow (by decide) rfl (.skip (.inl rfl) (.missing (by decide) rfl)))
  refine ⟨⟨hcontain, (contain_sound hreg hexist).1 _ hcontain⟩, ?_⟩
  exact (contain_sound hreg hexist).2 ["w"] rfl (hpath ▸ not_dangles_out) ["gone"]
    (hpath ▸ hleads) (.inl (by decide))

/-- A path below the link that points outside and dangles is returned with the link on it, although
it leads out of the workspace. -/
theorem dangling_link_escapes :
    contain linkedMachine [["w", ".ctl"]] "/w" "out/x" = .ok ["w", "out", "x"] ∧
    resolveRoot linkedMachine "/w" = .ok ["w"] ∧
    ¬ NoLinks linkedMachine.tree ["w", "out", "x"] ∧
    Leads linkedMachine.tree [] (locate ["w"] "out/x") ["gone", "x"] ∧ ¬ ["w"] <+: ["gone", "x"] := by
  refine ⟨rfl, rfl, ?_, ?_, by decide⟩
  · intro hno
    have hlink := hno ["w", "out"] (by decide) (.link "/gone") rfl
    cases hlink
  · have hpath : locate ["w"] "out/x" = ["w", "out", "x"] := by decide
    have htarget : components "/gone" ++ ["x"] = ["", "gone", "x"] := by decide
    rw [hpath]
    refine .enter (by decide) rfl rfl (.follow (by decide) rfl ?_)
    exact .skip (.inl rfl) (.missing (by decide) rfl)

end Contenox.Vfs
