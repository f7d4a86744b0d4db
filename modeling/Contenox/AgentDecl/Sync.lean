/-
# Synchronising declarations

`sync.go`.  A pass collects the declarations under some source directories, compiles each, and keeps
the generated directory in step: it writes the chain and the policy of a source where they are not
there yet, and at the end removes the files of every source that the last pass recorded and this one
did not keep.

The files of a source are named after the AGENT, the records of the last pass are kept by the PATH
of the source.  `SyncPasses` is about what comes of that.

Compiling is a parameter up to its outcome: the parsers of the dialects, `EmitChain`, `EmitTree` and
the JSON encoder.  `For` and `EmitPolicy` are those of `Config` and `Emit`.
-/
import Contenox.AgentDecl.Emit
import Contenox.Engine.Tools

namespace Contenox.AgentDecl

open Lib
open Lib.GoStrings
open Engine (trimPrefix)

variable {γ β : Type}

/-! ## 1. Sources -/

/-- What a source directory holds. -/
inductive Entry
  | file (name data : String)
  | dir (name : String) (entries : List Entry)

def Entry.name : Entry → String
  | .file name _ => name
  | .dir name _ => name

/-- `AgentFilename`. -/
def agentFilename : String := "agent.md"

/-- A file or, where `tree` is set, a directory with an `agent.md`. -/
structure Source where
  rel : String
  path : String
  native : Bool
  tree : Bool
  entry : Entry

/-- `path.Ext` of a last element. -/
def ext (name : String) : String :=
  if '.' ∈ name.toList then
    "." ++ String.ofList (name.toList.reverse.takeWhile (· ≠ '.')).reverse
  else ""

/-- A file that is a declaration: Markdown, and not a README. -/
def declares (name : String) : Bool := equalFold (ext name) ".md" && !equalFold name "README.md"

/-- `path.Join` of a root's key and a name inside it (`Root.Path`). -/
def rootPath (key rel : String) : String :=
  if rel = "" ∨ rel = "." then key
  else if key = "" then clean rel
  else clean (key ++ "/" ++ rel)

/-- The name of an entry inside the directory `rel`. -/
def relJoin (rel name : String) : String := if rel = "." then name else rel ++ "/" ++ name

section Walk

variable (key : String) (native : Bool)

mutual

/-- The walk of `collectSources`: a directory with an `agent.md` is one source and is not
descended into. -/
def collectEntry (rel : String) : Entry → List Source
  | .file name data =>
    if declares name then [⟨rel, rootPath key rel, native, false, .file name data⟩] else []
  | .dir name entries =>
    if entries.any fun e => e.name = agentFilename then
      [⟨rel, rootPath key rel, native, true, .dir name entries⟩]
    else collectEntries rel entries

def collectEntries (rel : String) : List Entry → List Source
  | [] => []
  | e :: es => collectEntry (relJoin rel e.name) e ++ collectEntries rel es

end

end Walk

inductive ScanError
  | notExist
  | failed (text : String)
  deriving DecidableEq, Repr

structure SourceDir where
  key : String
  native : Bool
  tree : Except ScanError (List Entry)

/-- The sources of all directories, in order of the directories. -/
def scanSources : List SourceDir → Except String (List Source)
  | [] => .ok []
  | dir :: dirs =>
    match dir.tree with
    | .error .notExist => scanSources dirs
    | .error (.failed e) => .error ("agentdecl: scan " ++ dir.key ++ ": " ++ e)
    | .ok entries => do
      let rest ← scanSources dirs
      return collectEntry dir.key dir.native "." (.dir "." entries) ++ rest

def collectSources (dirs : List SourceDir) : Except String (List Source) := do
  let found ← scanSources dirs
  return found.insertionSort (·.path ≤ ·.path)

/-! ## 2. Compiling one source -/

structure SyncRecord where
  sourcePath : String
  sourceSHA256 : String
  chainFile : String
  policyFile : String
  deriving DecidableEq, Repr

/-- `ChainFileFor`. -/
def chainFileFor (chainID : String) : String :=
  "chain-agent-" ++ trimPrefix chainID "chain-" ++ ".json"

/-- `PolicyFileFor`. -/
def policyFileFor (stem : String) : String := "hitl-policy-" ++ stem ++ ".json"

/-- `ReservedNames`. -/
def reservedNames : List String := ["agent-planner"]

/-- What a parser makes of a source: the name its chain will have, the hash and the declaration. -/
structure Parsed where
  name : String
  sha256 : String
  ir : AgentIR

/-- The parts of the compiler that are not modelled; `γ` are chains and `β` file contents. -/
structure Compiler (γ β : Type) where
  tx : Texts
  toml : Toml
  parse : Source → Except String Parsed
  emitChain : Source → Parsed → Config → Except String γ
  chainID : γ → String
  marshalChain : γ → Except String β
  marshalPolicy : EmittedPolicy → Except String β

/-- A compiled source: its record and the contents of its two files. -/
structure Built (β : Type) where
  name : String
  record : SyncRecord
  chainJSON : β
  policyJSON : β

inductive Outcome (β : Type)
  | refused (name reason : String)
  /-- a document that cannot be encoded ends the pass -/
  | failed (err : String)
  | built (b : Built β)

section Compile

variable (c : Compiler γ β) (cfg : Config)

/-- The record of a source whose chain has the id; a policy file that an envelope owns is left
to it. -/
def recordFor (src : Source) (sha256 id : String) : SyncRecord :=
  let stem := trimPrefix id "chain-"
  { sourcePath := src.path
    sourceSHA256 := sha256
    chainFile := chainFileFor id
    policyFile := if (cfg.envelopes.lookup stem).isSome then "" else policyFileFor stem }

/-- The body of the loop of `Sync` up to the comparison with what is stored. -/
def compileSource (src : Source) : Outcome β :=
  match c.parse src with
  | .error e => .refused "" e
  | .ok p =>
    match cfg.forAgent c.toml p.name with
    | .error e => .refused p.name e
    | .ok acfg =>
      match c.emitChain src p acfg with
      | .error e => .refused p.name e
      | .ok chain =>
        match emitPolicy c.tx p.ir acfg with
        | .error e => .refused p.name e
        | .ok policy =>
          if c.chainID chain ∈ reservedNames then
            .refused (c.chainID chain) (c.tx.quote (c.chainID chain) ++
              " is a shipped agent; a source file may not take its name")
          else
            match c.marshalChain chain, c.marshalPolicy policy with
            | .error e, _ => .failed e
            | .ok _, .error e => .failed e
            | .ok chainJSON, .ok policyJSON =>
              .built ⟨c.chainID chain, recordFor cfg src p.sha256 (c.chainID chain), chainJSON,
                policyJSON⟩

/-- The name a source declares, if it parses (`declared`). -/
def declaredName (src : Source) : Option String :=
  match c.parse src with
  | .error _ => none
  | .ok p => some p.name

end Compile

/-! ## 3. The generated directory -/

/-- The contents of the files. -/
abbrev Dir (β : Type) := String → Option β

def syncStateFilename : String := ".sync-state.json"

/-- The file system below, and the JSON of the sync state.  A removal whose error nobody looks at
may not go through. -/
structure Disk (β : Type) where
  key : String
  mkdirAll : Option String
  writeError : String → Option String
  removes : String → Bool
  encode : List (String × SyncRecord) → β
  decode : β → List (String × SyncRecord)

section Passes

variable [DecidableEq β] (disk : Disk β)

/-- A file with a content put into the directory. -/
def Dir.put (dir : Dir β) (name : String) (content : β) : Dir β :=
  fun n => if n = name then some content else dir n

/-- `WriteFile`, with the prefix of its error. -/
def writeFile (dir : Dir β) (what name : String) (content : β) : Except String (Dir β) :=
  match disk.writeError name with
  | some e => .error ("agentdecl: write " ++ what ++ ": " ++ e)
  | none => .ok (dir.put name content)

/-- `Remove`. -/
def removeFile (dir : Dir β) (name : String) : Dir β :=
  if disk.removes name then fun n => if n = name then none else dir n else dir

def fileHas (dir : Dir β) (name : String) (want : β) : Bool := dir name = some want

def readSyncState (dir : Dir β) : List (String × SyncRecord) :=
  match dir syncStateFilename with
  | none => []
  | some raw => disk.decode raw

def writeSyncState (dir : Dir β) (state : List (String × SyncRecord)) : Except String (Dir β) :=
  writeFile disk dir "sync state" syncStateFilename (disk.encode state)

/-- The files of a record. -/
def SyncRecord.files (r : SyncRecord) : List String :=
  r.chainFile :: if r.policyFile = "" then [] else [r.policyFile]

/-- The removal of the files of some records. -/
def retire (dir : Dir β) (records : List SyncRecord) : Dir β :=
  (records.flatMap SyncRecord.files).foldl (removeFile disk) dir

def retireAll (dir : Dir β) : Except String (Dir β) :=
  let state := readSyncState disk dir
  let dir := retire disk dir (state.map Prod.snd)
  if state = [] then .ok dir else writeSyncState disk dir []

/-! ## 4. A pass -/

inductive WriteAction
  | created
  | updated
  | unchanged
  | refused
  | ignored
  deriving DecidableEq, Repr

structure SyncResult where
  source : String
  name : String
  action : WriteAction
  reason : String
  deriving DecidableEq, Repr

/-- What a pass has so far. -/
structure Pass (β : Type) where
  dir : Dir β
  next : List (String × SyncRecord)
  results : List SyncResult

/-- The second half of the loop's body: compare a compiled source with what is stored, and write
what is not there. -/
def store (state : List (String × SyncRecord)) (p : Pass β) (src : Source) (b : Built β) :
    Except String (Pass β) :=
  let kept (dir : Dir β) (action : WriteAction) : Pass β :=
    { dir := dir
      next := (src.path, b.record) :: p.next
      results := p.results ++ [⟨src.path, b.name, action, ""⟩] }
  if (state.lookup src.path).isSome ∧ fileHas p.dir b.record.chainFile b.chainJSON ∧
      (b.record.policyFile = "" ∨ fileHas p.dir b.record.policyFile b.policyJSON) then
    .ok (kept p.dir .unchanged)
  else do
    let dir ← writeFile disk p.dir (rootPath disk.key b.record.chainFile) b.record.chainFile
      b.chainJSON
    let dir ← (if b.record.policyFile = "" then .ok dir
      else writeFile disk dir (rootPath disk.key b.record.policyFile) b.record.policyFile
        b.policyJSON)
    return kept dir (if (state.lookup src.path).isSome then .updated else .created)

variable (c : Compiler γ β) (cfg : Config)

/-- The body of the loop of `Sync`. -/
def syncSource (state : List (String × SyncRecord)) (p : Pass β) (src : Source) :
    Except String (Pass β) :=
  match compileSource c cfg src with
  | .refused name reason =>
    .ok { p with results := p.results ++ [⟨src.path, name, .refused, reason⟩] }
  | .failed e => .error e
  | .built b => store disk state p src b

/-- The loop of `Sync`. -/
def syncSources (state : List (String × SyncRecord)) : Pass β → List Source → Except String (Pass β)
  | p, [] => .ok p
  | p, src :: rest => do
    let p ← syncSource disk c cfg state p src
    syncSources state p rest

/-- The records of the last pass whose sources this pass did not keep. -/
def retired (state next : List (String × SyncRecord)) : List SyncRecord :=
  (state.filter fun e => (next.lookup e.1).isNone).map Prod.snd

/-- The report on a section of the configuration that names no declaration (`UnknownAgents`). -/
def unknownAgents (sources : List Source) : List SyncResult :=
  ((sortedKeys cfg.agents).filter fun name => some name ∉ sources.map (declaredName c)).map fun name =>
    ⟨"agents.toml [agents." ++ name ++ "]", name, .ignored,
      "no declaration by that name; the section had no effect"⟩

/-- `Sync` after the sources are collected. -/
def syncCollected (sources : List Source) (dir : Dir β) :
    Except String (List SyncResult × Dir β) :=
  if sources.isEmpty then (retireAll disk dir).map fun dir => ([], dir)
  else
    match disk.mkdirAll with
    | some e => .error ("agentdecl: create " ++ disk.key ++ ": " ++ e)
    | none => do
      let state := readSyncState disk dir
      let p ← syncSources disk c cfg state ⟨dir, [], []⟩ sources
      let dir := retire disk p.dir (retired state p.next)
      let dir ← writeSyncState disk dir p.next
      return (p.results ++ unknownAgents c cfg sources, dir)

/-- `Sync`. -/
def sync (dirs : List SourceDir) (dir : Dir β) : Except String (List SyncResult × Dir β) :=
  match cfg.validate with
  | some e => .error e
  | none =>
    match collectSources dirs with
    | .error e => .error e
    | .ok sources => syncCollected disk c cfg sources dir

end Passes

end Contenox.AgentDecl
