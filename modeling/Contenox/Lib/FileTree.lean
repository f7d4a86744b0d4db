/-
# File trees with symbolic links

A tree of files, directories and symbolic links, and three ways to read a path in it.

* `Node.lookup` goes down by name and follows nothing: what `lstat` sees under a path that has no
  links on the way.
* `walk` goes component by component and follows links, at most a given number of them, and fails
  at a component that is missing or that is not a directory.  What it returns is a REAL path: it
  exists and no link is on it (`real_of_walk`).
* `Leads` says where a path leads, with no bound on the links and without the need that anything
  exists there: from the first missing component on, the rest is taken by name.

`lexical` cleans a path by name alone.  A component list may hold empty components and dots, as the
text between slashes does.
-/
import Contenox.Lib.GoStrings

namespace Lib.FileTree

/-! ## 1. Trees -/

inductive Node
  | file
  | dir (entries : List (String × Node))
  | link (target : String)

def Node.isLink : Node → Bool
  | .link _ => true
  | _ => false

def Node.isDir : Node → Bool
  | .dir _ => true
  | _ => false

/-- The node at a path, by name. -/
def Node.lookup : Node → List String → Option Node
  | n, [] => some n
  | .dir entries, c :: rest =>
    match entries.lookup c with
    | none => none
    | some n => n.lookup rest
  | .file, _ :: _ => none
  | .link _, _ :: _ => none

theorem lookup_append (n : Node) (p q : List String) :
    n.lookup (p ++ q) = (n.lookup p).bind (·.lookup q) := by
  induction p generalizing n with
  | nil => simp [Node.lookup]
  | cons c p ih =>
    cases n with
    | file | link _ => rfl
    | dir entries =>
      rw [List.cons_append, Node.lookup, Node.lookup]
      cases entries.lookup c with
      | none => rfl
      | some m => exact ih m

/-- A component of a path of text. -/
def components (path : String) : List String := GoStrings.split path '/'

/-! ## 2. By name -/

/-- One component, by name. -/
def lexStep (d : List String) (c : String) : List String :=
  if c = "" ∨ c = "." then d else if c = ".." then d.dropLast else d ++ [c]

/-- A path cleaned by name, from a directory. -/
def lexical (d todo : List String) : List String := todo.foldl lexStep d

/-- A name of an entry: neither empty nor one of the dots. -/
def IsName (c : String) : Prop := c ≠ "" ∧ c ≠ "." ∧ c ≠ ".."

instance : DecidablePred IsName := fun c =>
  inferInstanceAs (Decidable (c ≠ "" ∧ c ≠ "." ∧ c ≠ ".."))

variable {c : String}

theorem lexStep_of_isName (h : IsName c) (d : List String) : lexStep d c = d ++ [c] := by
  obtain ⟨h1, h2, h3⟩ := h
  simp [lexStep, h1, h2, h3]

variable {todo d : List String} {tree : Node}

theorem lexical_of_names (h : ∀ c ∈ todo, IsName c) (d : List String) :
    lexical d todo = d ++ todo := by
  induction todo generalizing d with
  | nil => simp [lexical]
  | cons c todo ih =>
    have hrest := ih (fun x hx => h x (List.mem_cons_of_mem _ hx)) (d ++ [c])
    rw [lexical, List.foldl_cons, lexStep_of_isName (h c List.mem_cons_self)]
    rw [lexical] at hrest
    rw [hrest, List.append_assoc]
    rfl

theorem isName_of_mem_lexStep (hd : ∀ c ∈ d, IsName c) (x : String) :
    ∀ c ∈ lexStep d x, IsName c := by
  unfold lexStep
  split
  · exact hd
  split
  · exact fun c hc => hd c (List.mem_of_mem_dropLast hc)
  rename_i h1 h2
  exact List.forall_mem_append.mpr ⟨hd, List.forall_mem_singleton.mpr
    ⟨fun h => h1 (.inl h), fun h => h1 (.inr h), h2⟩⟩

/-- A cleaned path has names only. -/
theorem isName_of_mem_lexical (hd : ∀ c ∈ d, IsName c) (todo : List String) :
    ∀ c ∈ lexical d todo, IsName c := by
  induction todo generalizing d with
  | nil => exact hd
  | cons x todo ih => exact ih (isName_of_mem_lexStep hd x)

/-! ## 3. Walking -/

inductive WalkError
  | notExist
  | notDir
  | tooManyLinks
  deriving DecidableEq, Repr

/-- Where a link is read from: the root, or the directory it stands in. -/
def linkBase (d : List String) (target : String) : List String :=
  if GoStrings.isAbs target then [] else d

/-- A walk up to its next link, which `follow` goes on from. -/
def walkTo (tree : Node) (follow : List String → List String → Except WalkError (List String)) :
    List String → List String → Except WalkError (List String)
  | d, [] => .ok d
  | d, c :: rest =>
    if c = "" ∨ c = "." then walkTo tree follow d rest
    else if c = ".." then walkTo tree follow d.dropLast rest
    else
      match tree.lookup (d ++ [c]) with
      | none => .error .notExist
      | some (.link target) => follow (linkBase d target) (components target ++ rest)
      | some n =>
        if !n.isDir && rest ≠ [] then .error .notDir else walkTo tree follow (d ++ [c]) rest

/-- A walk that follows at most `links` links. -/
def walk (tree : Node) : Nat → List String → List String → Except WalkError (List String)
  | 0 => walkTo tree fun _ _ => .error .tooManyLinks
  | links + 1 => walkTo tree (walk tree links)

/-! ## 4. Real paths -/

/-- A path that exists and on which no link is. -/
def Real (tree : Node) (p : List String) : Prop := ∃ n, tree.lookup p = some n ∧ n.isLink = false

/-- No link is on the path, whether it exists or not. -/
def NoLinks (tree : Node) (p : List String) : Prop :=
  ∀ q, q <+: p → ∀ n, tree.lookup q = some n → n.isLink = false

variable {q rest : List String}

/-- Nothing lies below a link. -/
theorem lookup_below_link {n : Node} (h : tree.lookup q = some n) (hlink : n.isLink = true)
    (hne : rest ≠ []) : tree.lookup (q ++ rest) = none := by
  cases n with
  | file | dir _ => cases hlink
  | link target =>
    rw [lookup_append, h]
    cases rest with
    | nil => exact absurd rfl hne
    | cons c rest => rfl

theorem noLinks_of_real {p : List String} (h : Real tree p) : NoLinks tree p := by
  obtain ⟨n, hn, hlink⟩ := h
  rintro q ⟨rest, rfl⟩ m hm
  by_contra hm'
  rw [Bool.not_eq_false] at hm'
  cases rest with
  | nil =>
    rw [List.append_nil, hm] at hn
    cases hn
    rw [hlink] at hm'
    cases hm'
  | cons c rest =>
    rw [lookup_below_link hm hm' (List.cons_ne_nil _ _)] at hn
    cases hn

theorem real_of_initial {p : List String} (h : Real tree p) (hq : q <+: p) : Real tree q := by
  obtain ⟨n, hn, -⟩ := id h
  obtain ⟨rest, hrest⟩ := id hq
  rw [← hrest, lookup_append] at hn
  obtain ⟨m, hm, -⟩ := Option.bind_eq_some_iff.mp hn
  exact ⟨m, hm, noLinks_of_real h q hq m hm⟩

variable {r : List String} {follow : List String → List String → Except WalkError (List String)}

theorem walkTo_real (hfollow : ∀ d todo r, Real tree d → follow d todo = .ok r → Real tree r)
    (hroot : Real tree []) (hd : Real tree d) (h : walkTo tree follow d todo = .ok r) :
    Real tree r := by
  induction todo generalizing d with
  | nil =>
    cases h
    exact hd
  | cons c rest ih =>
    rw [walkTo] at h
    split at h
    · exact ih hd h
    split at h
    · exact ih (real_of_initial hd (List.dropLast_prefix d)) h
    split at h
    · cases h
    · refine hfollow _ _ _ ?_ h
      unfold linkBase
      split
      · exact hroot
      · exact hd
    · rename_i n hnot hn
      split at h
      · cases h
      refine ih ⟨n, hn, ?_⟩ h
      cases n with
      | link target => exact absurd rfl (hnot target)
      | file | dir _ => rfl

variable {links : Nat}

/-- What a walk returns is real. -/
theorem real_of_walk (hroot : Real tree []) {links : Nat}
    (hd : Real tree d) (h : walk tree links d todo = .ok r) : Real tree r := by
  induction links generalizing d todo r with
  | zero =>
    refine walkTo_real ?_ hroot hd h
    intro _ _ _ _ h
    cases h
  | succ links ih => exact walkTo_real (fun _ _ _ hd h => ih hd h) hroot hd h

theorem walkTo_names
    (hfollow : ∀ d todo r, (∀ c ∈ d, IsName c) → follow d todo = .ok r → ∀ c ∈ r, IsName c)
    (hd : ∀ c ∈ d, IsName c) (h : walkTo tree follow d todo = .ok r) : ∀ c ∈ r, IsName c := by
  induction todo generalizing d with
  | nil =>
    cases h
    exact hd
  | cons c rest ih =>
    rw [walkTo] at h
    split at h
    · exact ih hd h
    rename_i hc
    split at h
    · exact ih (fun x hx => hd x (List.mem_of_mem_dropLast hx)) h
    rename_i hup
    split at h
    · cases h
    · refine hfollow _ _ _ ?_ h
      unfold linkBase
      split
      · intro x hx
        cases hx
      · exact hd
    · split at h
      · cases h
      refine ih ?_ h
      have hstep := isName_of_mem_lexStep hd c
      rwa [lexStep, if_neg hc, if_neg hup] at hstep

/-- What a walk returns has names only. -/
theorem names_of_walk (hd : ∀ c ∈ d, IsName c) (h : walk tree links d todo = .ok r) :
    ∀ c ∈ r, IsName c := by
  induction links generalizing d todo r with
  | zero =>
    refine walkTo_names ?_ hd h
    intro _ _ _ _ h
    cases h
  | succ links ih => exact walkTo_names (fun _ _ _ hd h => ih hd h) hd h

/-! ## 5. Where a path leads -/

/-- From the directory `d` the components lead to a path. -/
inductive Leads (tree : Node) : List String → List String → List String → Prop
  | done (d : List String) : Leads tree d [] d
  | skip {d rest q : List String} {c : String} : c = "" ∨ c = "." → Leads tree d rest q →
      Leads tree d (c :: rest) q
  | up {d rest q : List String} : Leads tree d.dropLast rest q → Leads tree d (".." :: rest) q
  | enter {d rest q : List String} {c : String} {n : Node} : IsName c →
      tree.lookup (d ++ [c]) = some n → n.isLink = false → Leads tree (d ++ [c]) rest q →
      Leads tree d (c :: rest) q
  | follow {d rest q : List String} {c target : String} : IsName c →
      tree.lookup (d ++ [c]) = some (.link target) →
      Leads tree (linkBase d target) (components target ++ rest) q → Leads tree d (c :: rest) q
  | missing {d rest : List String} {c : String} : IsName c → tree.lookup (d ++ [c]) = none →
      Leads tree d (c :: rest) (lexical (d ++ [c]) rest)

/-- A path leads to one place. -/
theorem leads_unique {q' : List String} (h : Leads tree d todo q) (h' : Leads tree d todo q') :
    q = q' := by
  induction h with
  | done d =>
    cases h'
    rfl
  | skip hc _ ih =>
    cases h' with
    | skip _ h' => exact ih h'
    | up _ => exact absurd hc (by decide)
    | enter hname | follow hname | missing hname => exact absurd hc (by simp [hname.1, hname.2.1])
  | up _ ih =>
    cases h' with
    | skip hc _ => exact absurd hc (by decide)
    | up h' => exact ih h'
    | enter hname | follow hname | missing hname => exact absurd rfl hname.2.2
  | enter hname hn hlink _ ih =>
    cases h' with
    | skip hc _ => exact absurd hc (by simp [hname.1, hname.2.1])
    | up _ => exact absurd rfl hname.2.2
    | enter _ _ _ h' => exact ih h'
    | follow _ hn' _ =>
      rw [hn] at hn'
      cases hn'
      cases hlink
    | missing _ hn' =>
      rw [hn] at hn'
      cases hn'
  | follow hname hn _ ih =>
    cases h' with
    | skip hc _ => exact absurd hc (by simp [hname.1, hname.2.1])
    | up _ => exact absurd rfl hname.2.2
    | enter _ hn' hlink _ =>
      rw [hn] at hn'
      cases hn'
      cases hlink
    | follow _ hn' h' =>
      rw [hn] at hn'
      cases hn'
      exact ih h'
    | missing _ hn' =>
      rw [hn] at hn'
      cases hn'
  | missing hname hn =>
    cases h' with
    | skip hc _ => exact absurd hc (by simp [hname.1, hname.2.1])
    | up _ => exact absurd rfl hname.2.2
    | enter _ hn' _ _ | follow _ hn' _ =>
      rw [hn] at hn'
      cases hn'
    | missing _ _ => rfl

/-! ## 6. A walk in two parts -/

section

variable {tree : Node} {follow : List String → List String → Except WalkError (List String)}
  {d e xs ys : List String} {links : Nat}

/-- What a step of a walk does: it stays, goes up, follows a link or enters. -/
theorem walkTo_cons_ok (h : walkTo tree follow d (c :: rest) = .ok e) :
    ((c = "" ∨ c = ".") ∧ walkTo tree follow d rest = .ok e) ∨
    (c = ".." ∧ walkTo tree follow d.dropLast rest = .ok e) ∨
    (IsName c ∧ ∃ target, tree.lookup (d ++ [c]) = some (.link target) ∧
      follow (linkBase d target) (components target ++ rest) = .ok e) ∨
    (IsName c ∧ ∃ n, tree.lookup (d ++ [c]) = some n ∧ n.isLink = false ∧
      (n.isDir = true ∨ rest = []) ∧ walkTo tree follow (d ++ [c]) rest = .ok e) := by
  rw [walkTo] at h
  split at h
  · rename_i hc
    exact .inl ⟨hc, h⟩
  rename_i hc
  split at h
  · rename_i hup
    exact .inr (.inl ⟨hup, h⟩)
  rename_i hup
  have hname : IsName c := ⟨fun h => hc (.inl h), fun h => hc (.inr h), hup⟩
  split at h
  · cases h
  · rename_i target hn
    exact .inr (.inr (.inl ⟨hname, target, hn, h⟩))
  rename_i n hnot hn
  split at h
  · cases h
  rename_i hdir
  refine .inr (.inr (.inr ⟨hname, n, hn, ?_, ?_, h⟩))
  · cases n with
    | link target => exact absurd rfl (hnot target)
    | file | dir => rfl
  · rcases Bool.eq_false_or_eq_true n.isDir with hd | hd
    · exact .inl hd
    · exact .inr (by simpa [hd] using hdir)

theorem leads_walkTo
    (hfollow : ∀ d xs e ys q, follow d xs = .ok e → Leads tree e ys q → Leads tree d (xs ++ ys) q)
    (h : walkTo tree follow d xs = .ok e) (hq : Leads tree e ys q) : Leads tree d (xs ++ ys) q := by
  induction xs generalizing d with
  | nil =>
    cases h
    exact hq
  | cons c xs ih =>
    rw [List.cons_append]
    rcases walkTo_cons_ok h with ⟨hc, h⟩ | ⟨rfl, h⟩ | ⟨hname, target, hn, h⟩ |
      ⟨hname, n, hn, hlink, -, h⟩
    · exact .skip hc (ih h)
    · exact .up (ih h)
    · refine .follow hname hn ?_
      rw [← List.append_assoc]
      exact hfollow _ _ _ _ _ h hq
    · exact .enter hname hn hlink (ih h)

/-- A walk that arrives leads where the rest of the path leads from there. -/
theorem leads_walk (h : walk tree links d xs = .ok e) (hq : Leads tree e ys q) :
    Leads tree d (xs ++ ys) q := by
  induction links generalizing d xs e ys q with
  | zero => exact leads_walkTo (fun _ _ _ _ _ h _ => by cases h) h hq
  | succ links ih => exact leads_walkTo (fun _ _ _ _ _ h hq => ih h hq) h hq

/-- A walk of a longer path goes on from where the shorter one arrives, or stops at a file. -/
def GoesOn (tree : Node) (e ys : List String) (r : Except WalkError (List String)) : Prop :=
  r = .error .notDir ∨ ∃ links, r = walk tree links e ys

theorem walkTo_append (hys : ys ≠ []) (hnow : ∃ links, walkTo tree follow = walk tree links)
    (hfollow : ∀ d xs e, follow d xs = .ok e → GoesOn tree e ys (follow d (xs ++ ys)))
    (h : walkTo tree follow d xs = .ok e) : GoesOn tree e ys (walkTo tree follow d (xs ++ ys)) := by
  induction xs generalizing d with
  | nil =>
    cases h
    obtain ⟨links, hlinks⟩ := hnow
    exact .inr ⟨links, by rw [List.nil_append, hlinks]⟩
  | cons c xs ih =>
    rw [List.cons_append, walkTo]
    rcases walkTo_cons_ok h with ⟨hc, h⟩ | ⟨rfl, h⟩ | ⟨hname, target, hn, h⟩ |
      ⟨hname, n, hn, hlink, hdir, h⟩
    · rw [if_pos hc]
      exact ih h
    · exact ih h
    · rw [if_neg (by simp [hname.1, hname.2.1]), if_neg hname.2.2, hn]
      dsimp only
      rw [← List.append_assoc]
      exact hfollow _ _ _ h
    · rw [if_neg (by simp [hname.1, hname.2.1]), if_neg hname.2.2, hn]
      cases n with
      | link target => cases hlink
      | dir entries =>
        dsimp only
        exact ih h
      | file =>
        refine .inl ?_
        dsimp only
        rw [if_pos (by simp [Node.isDir, hys])]

theorem walk_append (hys : ys ≠ [])
    (h : walk tree links d xs = .ok e) : GoesOn tree e ys (walk tree links d (xs ++ ys)) := by
  induction links generalizing d xs e with
  | zero => exact walkTo_append hys ⟨0, rfl⟩ (nofun) h
  | succ links ih => exact walkTo_append hys ⟨links + 1, rfl⟩ (fun _ _ _ h => ih h) h

/-- A name that is missing after a walk that arrives is not there, or is a link. -/
theorem missing_of_walk (hname : IsName c) (h : walk tree links d xs = .ok e)
    (hmiss : walk tree links d (xs ++ [c]) = .error .notExist) :
    tree.lookup (e ++ [c]) = none ∨ ∃ target, tree.lookup (e ++ [c]) = some (.link target) := by
  rcases walk_append (List.cons_ne_nil c []) h with hdir | ⟨links', hgo⟩
  · rw [hmiss] at hdir
    cases hdir
  rw [hmiss] at hgo
  have hstep : ∃ follow, walk tree links' = walkTo tree follow := by
    cases links' with
    | zero | succ _ => exact ⟨_, rfl⟩
  obtain ⟨follow, hwalk⟩ := hstep
  rw [hwalk, walkTo, if_neg (by simp [hname.1, hname.2.1]), if_neg hname.2.2] at hgo
  cases hn : tree.lookup (e ++ [c]) with
  | none => exact .inl rfl
  | some n =>
    rw [hn] at hgo
    cases n with
    | link target => exact .inr ⟨target, rfl⟩
    | file | dir =>
      dsimp only at hgo
      cases hgo

theorem walkTo_missing_append
    (hfollow : ∀ d xs, follow d xs = .error .notExist → follow d (xs ++ ys) = .error .notExist)
    (h : walkTo tree follow d xs = .error .notExist) :
    walkTo tree follow d (xs ++ ys) = .error .notExist := by
  induction xs generalizing d with
  | nil => cases h
  | cons c xs ih =>
    rw [walkTo] at h
    rw [List.cons_append, walkTo]
    split at h
    · rw [if_pos ‹_›]
      exact ih h
    rw [if_neg ‹_›]
    split at h
    · rw [if_pos ‹_›]
      exact ih h
    rw [if_neg ‹_›]
    split at h
    · rfl
    · rw [← List.append_assoc]
      exact hfollow _ _ h
    rename_i n hnot hn
    split at h
    · cases h
    rename_i hdir
    -- the walk went on below this node, so it is a directory
    cases n with
    | link target => exact absurd rfl (hnot target)
    | dir entries =>
      exact ih h
    | file =>
      cases xs with
      | nil => cases h
      | cons x xs => exact absurd rfl hdir

/-- A path below a missing one is missing. -/
theorem walk_missing_append (h : walk tree links d xs = .error .notExist) :
    walk tree links d (xs ++ ys) = .error .notExist := by
  induction links generalizing d xs with
  | zero => exact walkTo_missing_append (nofun) h
  | succ links ih => exact walkTo_missing_append (fun _ _ h => ih h) h

end

end Lib.FileTree
