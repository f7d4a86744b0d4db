/-
# The syntax tree of a command line

The shell parser (`mvdan.cc/sh/v3/syntax`) is not part of the repository: what the code sees
of it is the TREE it returns and `syntax.Walk`, which visits every node of the tree once,
parents first.  This file holds the tree, with the node kinds and the fields the code reads,
and the walk.

All compound commands (`if`, `for`, `while`, `case`, blocks, subshells, functions, `time`,
`coproc`, declarations, tests, arithmetic) are one constructor, `clause`: the code never
looks inside them by kind, it only lets the walk pass through their children.

`mem_walk_iff` is what later proofs use: the walk visits a node exactly when the node hangs
somewhere below, by any chain of parts.
-/
import Mathlib.Logic.Relation
import Contenox.Lib.GoStrings

namespace Contenox.Shell

/-! ## 1. The tree -/

/-- `syntax.BinCmdOperator`. -/
inductive BinCmdOperator
  | andStmt
  | orStmt
  | pipe
  | pipeAll
  deriving DecidableEq, Repr

/-- The compound command a `clause` stands for. -/
inductive ClauseKind
  | ifClause
  | whileClause
  | forClause
  | caseClause
  | block
  | subshell
  | funcDecl
  | timeClause
  | coprocClause
  | declClause
  | letClause
  | testClause
  | arithmCmd
  deriving DecidableEq, Repr

mutual

/-- A statement: a command, its redirections, and how it is run. -/
inductive Stmt
  | mk (cmd : Option Command) (redirs : List Redirect)
      (negated background coprocess disown : Bool)

inductive Command
  | callExpr (assigns : List Assign) (args : List Word)
  | binaryCmd (op : BinCmdOperator) (x y : Stmt)
  | clause (kind : ClauseKind) (children : List Node)

/-- A redirection, with its target and the body of a here-document. -/
inductive Redirect
  | mk (op : String) (word hdoc : Option Word)

/-- `NAME=value`.  `indexed` says that an index is there, `index` holds its words. -/
inductive Assign
  | mk (append naked : Bool) (name : Option String) (value : Option Word)
      (indexed : Bool) (index array : List Word)

inductive Word
  | mk (parts : List WordPart)

/-- A part of a word.  `plain` says of a parameter that nothing but its name is there: no
operator, index, slice, replacement, expansion or modifier. -/
inductive WordPart
  | lit (value : String)
  | sglQuoted (dollar : Bool) (value : String)
  | dblQuoted (dollar : Bool) (parts : List WordPart)
  | paramExp (param : Option String) (plain : Bool) (words : List Word)
  | cmdSubst (stmts : List Stmt)
  | procSubst (stmts : List Stmt)
  | arithmExp (words : List Word)
  | extGlob (words : List Word)

/-- `syntax.Node`: what the walk visits. -/
inductive Node
  | stmt (s : Stmt)
  | command (c : Command)
  | redirect (r : Redirect)
  | assign (a : Assign)
  | word (w : Word)
  | part (p : WordPart)

end

/-- `syntax.File`. -/
structure File where
  stmts : List Stmt

namespace Stmt

def cmd : Stmt → Option Command
  | mk c _ _ _ _ _ => c

def redirs : Stmt → List Redirect
  | mk _ rs _ _ _ _ => rs

def negated : Stmt → Bool
  | mk _ _ n _ _ _ => n

def background : Stmt → Bool
  | mk _ _ _ b _ _ => b

def coprocess : Stmt → Bool
  | mk _ _ _ _ c _ => c

def disown : Stmt → Bool
  | mk _ _ _ _ _ d => d

/-- A statement that is just its command. -/
def plain (c : Command) : Stmt := mk (some c) [] false false false false

end Stmt

/-- The parts of a word. -/
def Word.parts : Word → List WordPart
  | mk ps => ps

/-- The name an assignment binds. -/
def Assign.name : Assign → Option String
  | mk _ _ n _ _ _ _ => n

/-! ## 2. The walk -/

/-- The nodes directly below a node, in the order the walk takes them. -/
def Node.children : Node → List Node
  | stmt (.mk cmd redirs _ _ _ _) => cmd.toList.map command ++ redirs.map redirect
  | command (.callExpr assigns args) => assigns.map assign ++ args.map word
  | command (.binaryCmd _ x y) => [stmt x, stmt y]
  | command (.clause _ children) => children
  | redirect (.mk _ w hdoc) => w.toList.map word ++ hdoc.toList.map word
  | assign (.mk _ _ _ value _ index array) =>
    value.toList.map word ++ index.map word ++ array.map word
  | word (.mk parts) => parts.map part
  | part (.lit _) => []
  | part (.sglQuoted _ _) => []
  | part (.dblQuoted _ parts) => parts.map part
  | part (.paramExp _ _ words) => words.map word
  | part (.cmdSubst stmts) => stmts.map stmt
  | part (.procSubst stmts) => stmts.map stmt
  | part (.arithmExp words) => words.map word
  | part (.extGlob words) => words.map word

mutual

def Stmt.walk : Stmt → List Node
  | .mk cmd redirs n b c d =>
    .stmt (.mk cmd redirs n b c d) :: (walkCommands cmd ++ walkRedirects redirs)

def walkCommands : Option Command → List Node
  | none => []
  | some c => c.walk

def Command.walk : Command → List Node
  | .callExpr assigns args =>
    .command (.callExpr assigns args) :: (walkAssigns assigns ++ walkWords args)
  | .binaryCmd op x y => .command (.binaryCmd op x y) :: (x.walk ++ y.walk)
  | .clause kind children => .command (.clause kind children) :: walkNodes children

def Redirect.walk : Redirect → List Node
  | .mk op w hdoc => .redirect (.mk op w hdoc) :: (walkOptWord w ++ walkOptWord hdoc)

def Assign.walk : Assign → List Node
  | .mk append naked name value indexed index array =>
    .assign (.mk append naked name value indexed index array) ::
      (walkOptWord value ++ walkWords index ++ walkWords array)

def Word.walk : Word → List Node
  | .mk parts => .word (.mk parts) :: walkParts parts

def WordPart.walk : WordPart → List Node
  | .lit v => [.part (.lit v)]
  | .sglQuoted d v => [.part (.sglQuoted d v)]
  | .dblQuoted d parts => .part (.dblQuoted d parts) :: walkParts parts
  | .paramExp n p words => .part (.paramExp n p words) :: walkWords words
  | .cmdSubst stmts => .part (.cmdSubst stmts) :: walkStmts stmts
  | .procSubst stmts => .part (.procSubst stmts) :: walkStmts stmts
  | .arithmExp words => .part (.arithmExp words) :: walkWords words
  | .extGlob words => .part (.extGlob words) :: walkWords words

def walkRedirects : List Redirect → List Node
  | [] => []
  | r :: rs => r.walk ++ walkRedirects rs

def walkAssigns : List Assign → List Node
  | [] => []
  | a :: as => a.walk ++ walkAssigns as

def walkOptWord : Option Word → List Node
  | none => []
  | some w => w.walk

def walkWords : List Word → List Node
  | [] => []
  | w :: ws => w.walk ++ walkWords ws

def walkParts : List WordPart → List Node
  | [] => []
  | p :: ps => p.walk ++ walkParts ps

def walkStmts : List Stmt → List Node
  | [] => []
  | s :: ss => s.walk ++ walkStmts ss

/-- The nodes from here on down. -/
def Node.walk : Node → List Node
  | .stmt s => s.walk
  | .command c => c.walk
  | .redirect r => r.walk
  | .assign a => a.walk
  | .word w => w.walk
  | .part p => p.walk

def walkNodes : List Node → List Node
  | [] => []
  | n :: ns => n.walk ++ walkNodes ns

end

/-- `syntax.Walk` over a file: every node, parents first. -/
def File.walk (f : File) : List Node := walkStmts f.stmts

/-! ## 3. The walk visits everything below, and nothing else -/

theorem walkRedirects_eq (rs : List Redirect) :
    walkRedirects rs = (rs.map Node.redirect).flatMap Node.walk := by
  induction rs with
  | nil => rfl
  | cons r rs ih => simp [walkRedirects, Node.walk, ih]

theorem walkAssigns_eq (as : List Assign) :
    walkAssigns as = (as.map Node.assign).flatMap Node.walk := by
  induction as with
  | nil => rfl
  | cons a as ih => simp [walkAssigns, Node.walk, ih]

theorem walkWords_eq (ws : List Word) : walkWords ws = (ws.map Node.word).flatMap Node.walk := by
  induction ws with
  | nil => rfl
  | cons w ws ih => simp [walkWords, Node.walk, ih]

theorem walkParts_eq (ps : List WordPart) :
    walkParts ps = (ps.map Node.part).flatMap Node.walk := by
  induction ps with
  | nil => rfl
  | cons p ps ih => simp [walkParts, Node.walk, ih]

theorem walkStmts_eq (ss : List Stmt) : walkStmts ss = (ss.map Node.stmt).flatMap Node.walk := by
  induction ss with
  | nil => rfl
  | cons s ss ih => simp [walkStmts, Node.walk, ih]

theorem walkNodes_eq (ns : List Node) : walkNodes ns = ns.flatMap Node.walk := by
  induction ns with
  | nil => rfl
  | cons n ns ih => simp [walkNodes, ih]

theorem walkCommands_eq (c : Option Command) :
    walkCommands c = (c.toList.map Node.command).flatMap Node.walk := by
  cases c <;> simp [walkCommands, Node.walk]

theorem walkOptWord_eq (w : Option Word) :
    walkOptWord w = (w.toList.map Node.word).flatMap Node.walk := by
  cases w <;> simp [walkOptWord, Node.walk]

/-- The walk of a node is the node and the walks of its children. -/
theorem walk_eq (n : Node) : n.walk = n :: n.children.flatMap Node.walk := by
  cases n with
  | stmt s =>
    cases s
    simp [Node.walk, Stmt.walk, Node.children, walkCommands_eq, walkRedirects_eq]
  | command c =>
    cases c <;>
      simp [Node.walk, Command.walk, Node.children, walkAssigns_eq, walkWords_eq, walkNodes_eq]
  | redirect r =>
    cases r
    simp [Node.walk, Redirect.walk, Node.children, walkOptWord_eq]
  | assign a =>
    cases a
    simp [Node.walk, Assign.walk, Node.children, walkOptWord_eq, walkWords_eq]
  | word w =>
    cases w
    simp [Node.walk, Word.walk, Node.children, walkParts_eq]
  | part p =>
    cases p <;>
      simp [Node.walk, WordPart.walk, Node.children, walkParts_eq, walkWords_eq, walkStmts_eq]

/-- `m` hangs below `n`, by any chain of parts, or is `n`. -/
def Node.Below (n m : Node) : Prop :=
  Relation.ReflTransGen (fun a b => b ∈ a.children) n m

theorem mem_walk_of_child {n c m : Node} (hc : c ∈ n.children) (hm : m ∈ c.walk) : m ∈ n.walk := by
  rw [walk_eq n]
  exact List.mem_cons_of_mem _ (List.mem_flatMap.mpr ⟨c, hc, hm⟩)

theorem length_walk_of_child {n c : Node} (hc : c ∈ n.children) :
    c.walk.length < n.walk.length := by
  have hsub : c.walk.Sublist (n.children.flatMap Node.walk) :=
    List.sublist_flatten_of_mem (List.mem_map.mpr ⟨c, hc, rfl⟩)
  rw [walk_eq n, List.length_cons]
  exact Nat.lt_succ_of_le hsub.length_le

/-- **The walk visits exactly the nodes below.** -/
theorem mem_walk_iff {n m : Node} : m ∈ n.walk ↔ n.Below m := by
  constructor
  · -- on the length of the walk, which every child's walk undercuts
    induction hlen : n.walk.length using Nat.strongRecOn generalizing n with
    | ind k ih =>
      intro hm
      rw [walk_eq n] at hm
      rcases List.mem_cons.mp hm with rfl | hm
      · exact Relation.ReflTransGen.refl
      obtain ⟨c, hc, hmc⟩ := List.mem_flatMap.mp hm
      exact Relation.ReflTransGen.head hc
        (ih c.walk.length (hlen ▸ length_walk_of_child hc) rfl hmc)
  · intro h
    induction h using Relation.ReflTransGen.head_induction_on with
    | refl =>
      rw [walk_eq m]
      exact List.mem_cons_self
    | head hc _ ih => exact mem_walk_of_child hc ih

/-- A node of a file: it hangs below one of the file's statements. -/
def File.Has (f : File) (m : Node) : Prop := ∃ s ∈ f.stmts, (Node.stmt s).Below m

theorem File.mem_walk_iff {f : File} {m : Node} : m ∈ f.walk ↔ f.Has m := by
  unfold File.walk File.Has
  rw [walkStmts_eq, List.mem_flatMap]
  constructor
  · rintro ⟨n, hn, hm⟩
    obtain ⟨s, hs, rfl⟩ := List.mem_map.mp hn
    exact ⟨s, hs, Shell.mem_walk_iff.mp hm⟩
  · rintro ⟨s, hs, hm⟩
    exact ⟨.stmt s, List.mem_map.mpr ⟨s, hs, rfl⟩, Shell.mem_walk_iff.mpr hm⟩

end Contenox.Shell
