/-
# The stored file tree

`vfs/service.go` over the tables `vfs_files`, `vfs_filestree` and `vfs_blobs`.  An item is a row of
the first with a row of the second of the same id, which holds its parent and its name; the parent
`""` is the root of the tenant.  Every operation is one transaction: what it returns without an
error is committed, and an error leaves the tables as they were.

Two walks go up the tree, each with room for 257 items: `getFileByID` collects the names for the
path, and `isDescendantOrSelf` looks for an ancestor.
-/
import Contenox.Lib.Table
import Contenox.Lib.GoStrings

namespace Contenox.Vfs

open Lib

/-! ## 1. Tables -/

structure FileRow where
  id : String
  tenant : String
  type : String
  /-- `""` for NULL -/
  blobsID : String
  isFolder : Bool
  deriving DecidableEq, Repr

structure TreeRow where
  id : String
  tenant : String
  parentID : String
  name : String
  deriving DecidableEq, Repr

structure BlobRow where
  id : String
  tenant : String
  data : List UInt8
  deriving DecidableEq, Repr

structure Store where
  files : List FileRow
  tree : List TreeRow
  blobs : List BlobRow
  deriving DecidableEq, Repr

def Store.empty : Store := ⟨[], [], []⟩

/-- `ErrNotFound` and `ErrUniqueViolation`. -/
def notFound : String := "libdb: not found"

def uniqueViolation : String := "libdb: unique constraint violation"

/-- The value of a statement, or its error. -/
def orError {α : Type} (x : Option α) (e : String) : Except String α :=
  match x with
  | some a => .ok a
  | none => .error e

section Statements

variable (s : Store) (tenant : String)

/-- `GetFileByID` of the store. -/
def Store.getFile (id : String) : Option FileRow :=
  (Table.get FileRow.id s.files id).filter (·.tenant = tenant)

/-- The row that `GetFileNameByID` and `GetFileParentID` read. -/
def Store.getEntry (id : String) : Option TreeRow :=
  (Table.get TreeRow.id s.tree id).filter (·.tenant = tenant)

/-- `GetBlobByID`. -/
def Store.getBlob (id : String) : Option BlobRow :=
  (Table.get BlobRow.id s.blobs id).filter (·.tenant = tenant)

/-- `FindFileIDByName`. -/
def Store.findFileIDByName (parentID name : String) : Option String :=
  (s.tree.find? fun r => r.tenant = tenant ∧ r.parentID = parentID ∧ r.name = name).map TreeRow.id

/-- `HasChildren`. -/
def Store.hasChildren (parentID : String) : Bool :=
  s.tree.any fun r => r.tenant = tenant ∧ r.parentID = parentID

/-- `EstimateFileCount`. -/
def Store.fileCount : Nat := s.files.countP (·.tenant = tenant)

/-- `CreateFile` of the store. -/
def Store.createFileRow (r : FileRow) : Option Store :=
  (Table.insert FileRow.id s.files r).map fun files => { s with files := files }

def Store.createBlob (r : BlobRow) : Option Store :=
  (Table.insert BlobRow.id s.blobs r).map fun blobs => { s with blobs := blobs }

/-- `CreateFileNameID`: the names of siblings are unique. -/
def Store.createFileNameID (r : TreeRow) : Option Store :=
  if (s.findFileIDByName r.tenant r.parentID r.name).isSome then none
  else (Table.insert TreeRow.id s.tree r).map fun tree => { s with tree := tree }

/-- An UPDATE of a row of the tree. -/
def Store.updateEntry (id : String) (f : TreeRow → TreeRow) : Except String Store :=
  match s.getEntry tenant id with
  | none => .error notFound
  | some r =>
    if s.tree.any fun x => x.id ≠ id ∧ x.tenant = tenant ∧ x.parentID = (f r).parentID ∧
        x.name = (f r).name then .error uniqueViolation
    else .ok { s with tree := Table.update TreeRow.id s.tree id f }

/-- `UpdateFileNameByID`. -/
def Store.updateFileNameByID (id name : String) : Except String Store :=
  s.updateEntry tenant id fun r => { r with name := name }

/-- `UpdateFileParentID`. -/
def Store.updateFileParentID (id newParentID : String) : Except String Store :=
  s.updateEntry tenant id fun r => { r with parentID := newParentID }

/-- `UpdateFile` of the store. -/
def Store.updateFileRow (id type : String) (isFolder : Bool) (blobsID : String) :
    Except String Store :=
  (orError (s.getFile tenant id) notFound).map fun _ =>
    { s with files := Table.update FileRow.id s.files id fun r =>
      { r with type := type, isFolder := isFolder, blobsID := blobsID } }

/-- `UpdateBlob`. -/
def Store.updateBlob (id : String) (data : List UInt8) : Except String Store :=
  (orError (s.getBlob tenant id) notFound).map fun _ =>
    { s with blobs := Table.update BlobRow.id s.blobs id fun r => { r with data := data } }

/-- `DeleteFileNameID`. -/
def Store.deleteFileNameID (id : String) : Except String Store :=
  (orError (s.getEntry tenant id) notFound).map fun _ =>
    { s with tree := Table.delete TreeRow.id s.tree id }

/-- `DeleteFile` of the store. -/
def Store.deleteFileRow (id : String) : Except String Store :=
  (orError (s.getFile tenant id) notFound).map fun _ =>
    { s with files := Table.delete FileRow.id s.files id }

def Store.deleteBlob (id : String) : Except String Store :=
  (orError (s.getBlob tenant id) notFound).map fun _ =>
    { s with blobs := Table.delete BlobRow.id s.blobs id }

end Statements

/-! ## 2. Walks -/

/-- The items a walk has room for: `depth` runs from 0 to `maxDepth`. -/
def walkRoom : Nat := 256 + 1

section Walks

variable (s : Store) (tenant : String)

/-- The loop of `getFileByID`: the names from the root down to `cur`. -/
def namesUp : Nat → List String → String → Except String (List String)
  | 0, _, cur => .error ("getFileByID: circular reference or max depth exceeded at ID '" ++ cur ++ "'")
  | room + 1, seen, cur =>
    if cur ∈ seen then
      .error ("getFileByID: circular reference or max depth exceeded at ID '" ++ cur ++ "'")
    else
      match s.getEntry tenant cur with
      | none => .error ("getFileByID: failed to get name for item ID '" ++ cur ++ "': " ++ notFound)
      | some r =>
        if r.parentID = "" then .ok [r.name]
        else (namesUp room (cur :: seen) r.parentID).map (· ++ [r.name])

/-- What `getFileByID` returns. -/
structure File where
  id : String
  path : String
  name : String
  contentType : String
  data : List UInt8
  parentID : String
  isDirectory : Bool
  deriving DecidableEq, Repr

/-- `strings.CutPrefix` and `strings.CutSuffix` of a slash. -/
def cutSlashes (p : String) : String :=
  let p := if GoStrings.hasPrefix p "/" then String.ofList (p.toList.drop 1) else p
  if GoStrings.hasSuffix p "/" then String.ofList p.toList.dropLast else p

def getFileByID (id : String) (withBlob : Bool) : Except String File :=
  match s.getFile tenant id with
  | none => .error notFound
  | some f =>
    match (if withBlob then orError ((s.getBlob tenant f.blobsID).map BlobRow.data) notFound
      else .ok []) with
    | .error e => .error e
    | .ok data =>
      match namesUp s tenant walkRoom [] id with
      | .error e => .error e
      | .ok names =>
        .ok { id := f.id
              path := cutSlashes (GoStrings.join "/" names)
              name := (names.reverse.find? (· ≠ "")).getD ""
              contentType := f.type
              data := data
              parentID := ((s.getEntry tenant id).map TreeRow.parentID).getD ""
              isDirectory := f.isFolder }

/-- The loop of `isDescendantOrSelf`. -/
def ancestorUp (checkID ancestorID : String) : Nat → List String → String → Except String Bool
  | 0, _, cur => .error ("isDescendantOrSelf: circular reference or max depth at " ++ cur)
  | room + 1, seen, cur =>
    if cur ∈ seen then .error ("isDescendantOrSelf: circular reference or max depth at " ++ cur)
    else
      match s.getEntry tenant cur with
      | none => .error ("isDescendantOrSelf: inconsistency, item " ++ cur ++
          " not found while traversing path from " ++ checkID)
      | some r =>
        if r.parentID = ancestorID then .ok true
        else if r.parentID = "" then .ok false
        else ancestorUp checkID ancestorID room (cur :: seen) r.parentID

def isDescendantOrSelf (checkID ancestorID : String) : Except String Bool :=
  if checkID = "" then .ok false
  else if checkID = ancestorID then .ok true
  else ancestorUp s tenant checkID ancestorID walkRoom [] checkID

/-- The segments of `GetFilesByPath`: the parts between slashes that are not empty. -/
def pathSegments (path : String) : List String := (GoStrings.split path '/').filter (· ≠ "")

/-- The resolution of `GetFilesByPath`, segment by segment from an item. -/
def resolveSegments (current : String) : List String → Option String
  | [] => some current
  | name :: rest =>
    match s.findFileIDByName tenant current name with
    | none => none
    | some id => resolveSegments id rest

end Walks

/-! ## 3. Operations -/

def maxUploadSize : Nat := 100 * 1024 * 1024

def maxFilesRowCount : Nat := 50000

/-- `Callbacks.BeforeWrite`: the error with which it blocks an operation. -/
abbrev BeforeWrite := String → String → Option String

section Operations

variable (beforeWrite : BeforeWrite) (tenant : String)

/-- A transaction: what it computes, if the callback lets it start. -/
def guarded {α : Type} (id : String) (tx : Except String α) : Except String α :=
  match beforeWrite tenant id with
  | some e => .error e
  | none => tx

/-- `CreateFile`; the two ids are fresh. -/
def createFile (fileID blobID parentID name contentType : String) (data : List UInt8)
    (s : Store) : Except String (File × Store) :=
  guarded beforeWrite tenant "" <|
    if name = "" then .error "name is required for files"
    else if '/' ∈ name.toList then .error "filename is not allowed to contain /"
    else if maxUploadSize < data.length then .error "file size exceeds the maximum allowed size"
    else if maxFilesRowCount ≤ s.fileCount tenant then
      .error ("too many files in the system: file limit reached (max " ++
        toString maxFilesRowCount ++ ")")
    else do
      let s ← orError (s.createBlob ⟨blobID, tenant, data⟩)
        ("failed to create blob: " ++ uniqueViolation)
      let s ← orError (s.createFileRow ⟨fileID, tenant, contentType, blobID, false⟩)
        ("failed to create file: " ++ uniqueViolation)
      let s ← orError (s.createFileNameID ⟨fileID, tenant, parentID, name⟩)
        ("failed to create path-id mapping: " ++ uniqueViolation)
      let file ← getFileByID s tenant fileID true
      return (file, s)

/-- `CreateFolder`; the id is fresh. -/
def createFolder (folderID parentID name : String) (s : Store) : Except String (File × Store) :=
  guarded beforeWrite tenant parentID <|
    if maxFilesRowCount ≤ s.fileCount tenant then
      .error ("too many files in the system: file limit reached (max " ++
        toString maxFilesRowCount ++ ")")
    else do
      let s ← orError (s.createFileRow ⟨folderID, tenant, "", "", true⟩)
        ("failed to create folder: " ++ uniqueViolation)
      let s ← orError (s.createFileNameID ⟨folderID, tenant, parentID, name⟩)
        ("failed to create path-id mapping: " ++ uniqueViolation)
      let file ← getFileByID s tenant folderID false
      return (file, s)

/-- What the two renamings share; they differ in the kind of item they take and in texts. -/
def rename (folder : Bool) (missing wrongKind failed : String) (id newName : String) (s : Store) :
    Except String (File × Store) :=
  guarded beforeWrite tenant id <|
    if '/' ∈ newName.toList then .error "name cannot contain slashes"
    else do
      let row ← orError (s.getFile tenant id) (missing ++ notFound)
      if row.isFolder ≠ folder then .error wrongKind
      else
        let s ← (s.updateFileNameByID tenant id newName).mapError (failed ++ ·)
        let file ← (getFileByID s tenant id (!folder)).mapError ("failed to fetch changes " ++ ·)
        return (file, s)

/-- `RenameFile`. -/
def renameFile (fileID newName : String) (s : Store) : Except String (File × Store) :=
  rename beforeWrite tenant false "file not found: " "target is a folder, use RenameFolder instead"
    "failed to update name " fileID newName s

/-- `RenameFolder`. -/
def renameFolder (folderID newName : String) (s : Store) : Except String (File × Store) :=
  rename beforeWrite tenant true "folder not found: " "target is not a folder"
    "failed to update path: " folderID newName s

/-- `UpdateFile`. -/
def updateFile (id contentType : String) (data : List UInt8) (s : Store) :
    Except String (File × Store) :=
  guarded beforeWrite tenant id do
    let existing ← orError (s.getFile tenant id) notFound
    if existing.isFolder then
      .error ("UpdateFile: target " ++ id ++ " is a folder, use folder operations instead")
    else if maxUploadSize < data.length then .error "file size exceeds the maximum allowed size"
    else
      let s ← (s.updateBlob tenant existing.blobsID data).mapError ("failed to update blob: " ++ ·)
      let s ← (s.updateFileRow tenant id contentType false existing.blobsID).mapError
        ("failed to update file record: " ++ ·)
      let file ← (getFileByID s tenant id true).mapError ("failed to reload file: " ++ ·)
      return (file, s)

/-- `DeleteFile`. -/
def deleteFile (id : String) (s : Store) : Except String Store :=
  guarded beforeWrite tenant id do
    let file ← orError (s.getFile tenant id) ("failed to get file: " ++ notFound)
    if file.isFolder then
      .error ("DeleteFile: target " ++ id ++ " is a folder, use DeleteFolder instead")
    else
      let s ← (s.deleteBlob tenant file.blobsID).mapError ("failed to delete blob: " ++ ·)
      let s ← (s.deleteFileNameID tenant id).mapError ("failed to delete from file tree: " ++ ·)
      (s.deleteFileRow tenant id).mapError ("failed to delete file: " ++ ·)

/-- `DeleteFolder`. -/
def deleteFolder (id : String) (s : Store) : Except String Store :=
  guarded beforeWrite tenant id do
    let folder ← orError (s.getFile tenant id)
      ("failed to get folder details for ID '" ++ id ++ "': " ++ notFound)
    if folder.isFolder = false then .error ("resource with ID '" ++ id ++ "' is not a folder")
    else if s.hasChildren tenant id then .error "folder is not empty"
    else
      let s ← (s.deleteFileNameID tenant id).mapError
        ("failed to delete folder name mapping for ID '" ++ id ++ "': " ++ ·)
      (s.deleteFileRow tenant id).mapError
        ("failed to delete folder record for ID '" ++ id ++ "': " ++ ·)

/-- The check of a target folder that the two moves share. -/
def checkTarget (op newParentID : String) (s : Store) : Except String Unit :=
  if newParentID = "" then .ok ()
  else
    match s.getFile tenant newParentID with
    | none => .error (op ++ ": target parent folder with ID " ++ newParentID ++ " not found")
    | some row =>
      if row.isFolder then .ok ()
      else .error (op ++ ": target parent with ID " ++ newParentID ++ " is not a folder")

/-- Another item has the name in the folder. -/
def nameTaken (id parentID name : String) (s : Store) : Bool :=
  match s.findFileIDByName tenant parentID name with
  | some existing => existing ≠ id
  | none => false

/-- The reparenting that the two moves share, after their checks. -/
def reparent (op noun : String) (id newParentID : String) (withBlob : Bool) (s : Store) :
    Except String (File × Store) := do
  let entry ← orError (s.getEntry tenant id)
    (op ++ ": failed to get current name for " ++ noun ++ " " ++ id ++ ": " ++ notFound)
  if entry.parentID ≠ newParentID ∧ nameTaken tenant id newParentID entry.name s then
    .error (op ++ ": an item named '" ++ entry.name ++ "' already exists in the target folder")
  else
    let s ← (if entry.parentID = newParentID then .ok s
      else (s.updateFileParentID tenant id newParentID).mapError
        (op ++ ": failed to move " ++ noun ++ " " ++ id ++ " to parent " ++ newParentID ++ ": " ++ ·))
    let file ← (getFileByID s tenant id withBlob).mapError
      (op ++ ": failed to retrieve updated " ++ noun ++ " details for " ++ id ++ ": " ++ ·)
    return (file, s)

/-- `MoveFile`. -/
def moveFile (fileID newParentID : String) (s : Store) : Except String (File × Store) :=
  guarded beforeWrite tenant fileID do
    let row ← orError (s.getFile tenant fileID) ("MoveFile: file with ID " ++ fileID ++ " not found")
    if row.isFolder then
      .error ("MoveFile: item with ID " ++ fileID ++ " is a folder, use MoveFolder instead")
    else
      checkTarget tenant "MoveFile" newParentID s
      reparent tenant "MoveFile" "file" fileID newParentID true s

/-- The check of `MoveFolder` against cycles. -/
def checkCircular (folderID newParentID : String) (s : Store) : Except String Unit :=
  if newParentID = "" then .ok ()
  else
    match isDescendantOrSelf s tenant newParentID folderID with
    | .error e => .error ("MoveFolder: failed to check for circular dependency: " ++ e)
    | .ok true => .error "invalid move: cannot move a folder into one of its own subfolders"
    | .ok false => .ok ()

/-- `MoveFolder`. -/
def moveFolder (folderID newParentID : String) (s : Store) : Except String (File × Store) :=
  guarded beforeWrite tenant folderID do
    let row ← orError (s.getFile tenant folderID)
      ("MoveFolder: folder with ID " ++ folderID ++ " not found")
    if row.isFolder = false then
      .error ("MoveFolder: item with ID " ++ folderID ++ " is not a folder")
    else if newParentID = folderID then .error "invalid move: cannot move a folder into itself"
    else
      checkTarget tenant "MoveFolder" newParentID s
      checkCircular tenant folderID newParentID s
      reparent tenant "MoveFolder" "folder" folderID newParentID false s

end Operations

/-- A call of the service. -/
inductive Call
  | createFile (fileID blobID parentID name contentType : String) (data : List UInt8)
  | createFolder (folderID parentID name : String)
  | renameFile (fileID newName : String)
  | renameFolder (folderID newName : String)
  | moveFile (fileID newParentID : String)
  | moveFolder (folderID newParentID : String)
  | updateFile (id contentType : String) (data : List UInt8)
  | deleteFile (id : String)
  | deleteFolder (id : String)
  deriving DecidableEq, Repr

/-- The tables after a call that did not fail. -/
def Call.run (beforeWrite : BeforeWrite) (tenant : String) : Call → Store → Except String Store
  | .createFile fileID blobID parentID name contentType data, s =>
    (Vfs.createFile beforeWrite tenant fileID blobID parentID name contentType data s).map Prod.snd
  | .createFolder folderID parentID name, s =>
    (Vfs.createFolder beforeWrite tenant folderID parentID name s).map Prod.snd
  | .renameFile id newName, s => (Vfs.renameFile beforeWrite tenant id newName s).map Prod.snd
  | .renameFolder id newName, s => (Vfs.renameFolder beforeWrite tenant id newName s).map Prod.snd
  | .moveFile id newParentID, s => (Vfs.moveFile beforeWrite tenant id newParentID s).map Prod.snd
  | .moveFolder id newParentID, s => (Vfs.moveFolder beforeWrite tenant id newParentID s).map Prod.snd
  | .updateFile id contentType data, s =>
    (Vfs.updateFile beforeWrite tenant id contentType data s).map Prod.snd
  | .deleteFile id, s => Vfs.deleteFile beforeWrite tenant id s
  | .deleteFolder id, s => Vfs.deleteFolder beforeWrite tenant id s

end Contenox.Vfs
