/-
# The stored tree stays a tree

Every call of the service is one transaction over the tables of `Stored`.  A tenant's tree is well
formed when parents are folders of the tenant, names of siblings differ and are plain, no item is
its own ancestor, and every item can be fetched with a path that leads back to it.

Four checks are missing in the code.  A creation does not look whether its parent is a folder, a new
folder's name is not looked at, a renaming takes an empty name, and a moved folder is measured
without what is below it.  `Call.Careful` states them as conditions on a call; in every run of
careful calls every tenant's tree is well formed (`tree_well_formed`).
-/
import Contenox.Lib.Outcome
import Contenox.Vfs.StoredTree

namespace Contenox.Vfs

open Lib GoStrings
open Lib.Table renaming get → row
open Lib.Outcome (ok_of_bind ok_of_map ok_of_mapError)

variable {bw : BeforeWrite} {t id : String} {s s' : Store}

/-! ## 1. What each call does -/

variable {r : TreeRow} {parentID missing wrongKind failed newName : String}

section Calls

variable {np : String} {s₀ s₁ : Store} {f : FileRow} {data : List UInt8} {file : File} {α : Type}
  {a : α}

theorem ok_of_orError {x : Option α} {e : String} (h : orError x e = .ok a) : x = some a := by
  cases x with
  | none => cases h
  | some b => exact congrArg some (Except.ok.inj h)

theorem ok_of_guarded {tx : Except String α} (h : guarded bw t id tx = .ok a) : tx = .ok a := by
  unfold guarded at h
  split at h
  · cases h
  · exact h

/-- The two inserts of an item, over tables whose blobs may have one more. -/
theorem creates_of_inserts (hid : f.id = r.id) (hten : f.tenant = r.tenant)
    (hfiles : s₀.files = s.files) (htree : s₀.tree = s.tree)
    (hblobs : ∀ k b, row BlobRow.id s.blobs k = some b → row BlobRow.id s₀.blobs k = some b)
    (hcontent : f.isFolder = false → row BlobRow.id s.blobs f.blobsID = none ∧
      ∃ b, row BlobRow.id s₀.blobs f.blobsID = some b ∧ b.tenant = f.tenant)
    (hfile : s₀.createFileRow f = some s₁) (hentry : s₁.createFileNameID r = some s')
    (hlevel : ∃ names, Chain (s'.getEntry r.tenant) r.id names ∧ names.length ≤ walkRoom) :
    Creates s s' f r := by
  obtain ⟨files, hins, rfl⟩ := Option.map_eq_some_iff.mp hfile
  unfold Store.createFileNameID at hentry
  split at hentry
  · cases hentry
  rename_i hsib
  obtain ⟨tree, hins', rfl⟩ := Option.map_eq_some_iff.mp hentry
  rw [hfiles] at hins
  obtain ⟨hnofile, hget⟩ := Table.insert_eq_some hins
  rw [htree] at hins'
  obtain ⟨hnoentry, hget'⟩ := Table.insert_eq_some hins'
  rw [hid] at hnofile hget
  refine ⟨hid, hten, hnofile, hnoentry, hget, hget', fun hnd => Table.nodup_insert hnd hins',
    hblobs, hcontent, ?_, hlevel⟩
  intro k r' hr' hten' hpar hnm
  refine hsib ?_
  unfold Store.findFileIDByName
  rw [Option.isSome_map, List.find?_isSome]
  rw [htree]
  exact ⟨r', Table.mem_of_get hr', by simp [hten', hpar, hnm]⟩

/-- A file is created under a parent that can hold it. -/
theorem createFile_creates {fileID blobID name contentType : String}
    (h : createFile bw t fileID blobID parentID name contentType data s = .ok (file, s')) :
    Creates s s' ⟨fileID, t, contentType, blobID, false⟩ ⟨fileID, t, parentID, name⟩ ∧ name ≠ "" ∧
      '/' ∉ name.toList := by
  have h := ok_of_guarded h
  split at h
  · cases h
  rename_i hne
  split at h
  · cases h
  rename_i hslash
  split at h
  · cases h
  split at h
  · cases h
  obtain ⟨s₀, hblob, h⟩ := ok_of_bind h
  obtain ⟨s₁, hfile, h⟩ := ok_of_bind h
  obtain ⟨s₂, hentry, h⟩ := ok_of_bind h
  obtain ⟨file', hget, h⟩ := ok_of_bind h
  cases h
  obtain ⟨blobs, hins, rfl⟩ := Option.map_eq_some_iff.mp (ok_of_orError hblob)
  obtain ⟨hfree, hblobs⟩ := Table.insert_eq_some hins
  refine ⟨creates_of_inserts rfl rfl ?_ ?_ ?_ ?_ (ok_of_orError hfile)
    (ok_of_orError hentry) (getFileByID_chain hget), hne, hslash⟩
  · rfl
  · rfl
  · intro k b hb
    rw [hblobs, if_neg]
    · exact hb
    rintro rfl
    rw [hfree] at hb
    cases hb
  · intro _
    refine ⟨hfree, ⟨blobID, t, data⟩, ?_, rfl⟩
    rw [hblobs, if_pos rfl]

theorem createFolder_creates {folderID name : String}
    (h : createFolder bw t folderID parentID name s = .ok (file, s')) :
    Creates s s' ⟨folderID, t, "", "", true⟩ ⟨folderID, t, parentID, name⟩ := by
  have h := ok_of_guarded h
  split at h
  · cases h
  obtain ⟨s₁, hfile, h⟩ := ok_of_bind h
  obtain ⟨s₂, hentry, h⟩ := ok_of_bind h
  obtain ⟨file', hget, h⟩ := ok_of_bind h
  cases h
  exact creates_of_inserts rfl rfl rfl rfl (fun _ _ hb => hb) (nofun)
    (ok_of_orError hfile) (ok_of_orError hentry) (getFileByID_chain hget)

/-- A rename changes one name. -/
theorem rename_changes {folder : Bool}
    (h : rename bw t folder missing wrongKind failed id newName s = .ok (file, s')) :
    '/' ∉ newName.toList ∧ ∃ r, Changes s s' t id r { r with name := newName } := by
  have h := ok_of_guarded h
  split at h
  · cases h
  rename_i hslash
  obtain ⟨row, -, h⟩ := ok_of_bind h
  split at h
  · cases h
  obtain ⟨s₁, hupd, h⟩ := ok_of_bind h
  obtain ⟨file', -, h⟩ := ok_of_bind h
  cases h
  exact ⟨hslash, updateEntry_changes (fun _ => ⟨rfl, rfl⟩) (ok_of_mapError hupd)⟩

/-- A move: nothing changes, or the entry has the new parent and the item its chain. -/
theorem reparent_changes {op noun : String} {withBlob : Bool}
    (h : reparent t op noun id np withBlob s = .ok (file, s')) :
    s' = s ∨ ((∃ r, Changes s s' t id r { r with parentID := np }) ∧
      ∃ names, Chain (s'.getEntry t) id names ∧ names.length ≤ walkRoom) := by
  obtain ⟨entry, -, h⟩ := ok_of_bind h
  split at h
  · cases h
  obtain ⟨s₁, hupd, h⟩ := ok_of_bind h
  obtain ⟨file', hget, h⟩ := ok_of_bind h
  cases h
  split at hupd
  · cases hupd
    exact .inl rfl
  · exact .inr ⟨updateEntry_changes (fun _ => ⟨rfl, rfl⟩) (ok_of_mapError hupd),
      getFileByID_chain (ok_of_mapError hget)⟩

theorem checkTarget_ok {op : String} {u : Unit} (h : checkTarget t op np s = .ok u) :
    np = "" ∨ ∃ p, s.getFile t np = some p ∧ p.isFolder = true := by
  unfold checkTarget at h
  split at h
  · exact .inl ‹_›
  split at h
  · cases h
  rename_i row hrow
  split at h
  · exact .inr ⟨row, hrow, ‹_›⟩
  · cases h

/-- No folder is moved below itself. -/
theorem checkCircular_ok {u : Unit} (h : checkCircular t id np s = .ok u) :
    np = "" ∨ ¬ Relation.ReflTransGen (Up (s.getEntry t)) np id := by
  unfold checkCircular at h
  split at h
  · exact .inl ‹_›
  rename_i hne
  split at h
  · cases h
  · cases h
  · rename_i hfalse
    exact .inr (isDescendantOrSelf_false hne hfalse)

/-- What a move has checked before it reparents. -/
structure Moves (s s' : Store) (t id np : String) (folder : Bool) : Prop where
  item : ∃ f, s.getFile t id = some f ∧ f.isFolder = folder
  target : np = "" ∨ ∃ p, s.getFile t np = some p ∧ p.isFolder = true
  free : folder = true → np = "" ∨ ¬ Relation.ReflTransGen (Up (s.getEntry t)) np id
  effect : s' = s ∨ ((∃ r, Changes s s' t id r { r with parentID := np }) ∧
    ∃ names, Chain (s'.getEntry t) id names ∧ names.length ≤ walkRoom)

theorem moveFile_moves (h : moveFile bw t id np s = .ok (file, s')) : Moves s s' t id np false := by
  have h := ok_of_guarded h
  obtain ⟨row, hrow, h⟩ := ok_of_bind h
  split at h
  · cases h
  rename_i hkind
  obtain ⟨u, htarget, h⟩ := ok_of_bind h
  exact ⟨⟨row, ok_of_orError hrow, by simpa using hkind⟩, checkTarget_ok htarget,
    (nofun), reparent_changes h⟩

theorem moveFolder_moves
    (h : moveFolder bw t id np s = .ok (file, s')) : Moves s s' t id np true := by
  have h := ok_of_guarded h
  obtain ⟨row, hrow, h⟩ := ok_of_bind h
  split at h
  · cases h
  rename_i hkind
  split at h
  · cases h
  obtain ⟨u, htarget, h⟩ := ok_of_bind h
  obtain ⟨u', hcircular, h⟩ := ok_of_bind h
  exact ⟨⟨row, ok_of_orError hrow, by simpa using hkind⟩, checkTarget_ok htarget,
    fun _ => checkCircular_ok hcircular, reparent_changes h⟩

theorem updateFileRow_ok {type blobsID : String} {folder : Bool}
    (h : s.updateFileRow t id type folder blobsID = .ok s') :
    s'.tree = s.tree ∧ s'.blobs = s.blobs ∧ ∃ f, row FileRow.id s.files id = some f ∧
      ∀ k, row FileRow.id s'.files k =
        if k = id then some { f with type := type, isFolder := folder, blobsID := blobsID }
        else row FileRow.id s.files k := by
  obtain ⟨f, hf, rfl⟩ := ok_of_map h
  have hget := (getFile_iff.mp (ok_of_orError hf)).1
  refine ⟨rfl, rfl, f, hget, fun k => ?_⟩
  rw [Table.get_update, hget]
  · rfl
  · intro _
    rfl

theorem updateBlob_ok (h : s.updateBlob t id data = .ok s') :
    s'.tree = s.tree ∧ s'.files = s.files ∧ ∃ b, row BlobRow.id s.blobs id = some b ∧
      ∀ k, row BlobRow.id s'.blobs k =
        if k = id then some { b with data := data } else row BlobRow.id s.blobs k := by
  obtain ⟨b, hb, rfl⟩ := ok_of_map h
  have hget := (getBlob_iff.mp (ok_of_orError hb)).1
  refine ⟨rfl, rfl, b, hget, fun k => ?_⟩
  rw [Table.get_update, hget]
  · rfl
  · intro _
    rfl

theorem updateFile_rewrites {contentType : String}
    (h : updateFile bw t id contentType data s = .ok (file, s')) : Rewrites s s' := by
  have h := ok_of_guarded h
  obtain ⟨existing, hexisting, h⟩ := ok_of_bind h
  have hexisting := (getFile_iff.mp (ok_of_orError hexisting)).1
  split at h
  · cases h
  rename_i hkind
  have hkind : existing.isFolder = false := by simpa using hkind
  split at h
  · cases h
  obtain ⟨s₁, hblob, h⟩ := ok_of_bind h
  obtain ⟨s₂, hfile, h⟩ := ok_of_bind h
  obtain ⟨file', -, h⟩ := ok_of_bind h
  cases h
  obtain ⟨htree, hfiles, b, hb, hblobs⟩ := updateBlob_ok (ok_of_mapError hblob)
  obtain ⟨htree', hblobs', f, hf, hrow⟩ := updateFileRow_ok (ok_of_mapError hfile)
  rw [hfiles, hexisting] at hf
  cases hf
  rw [hfiles] at hrow
  refine ⟨htree'.trans htree, ?_, ?_, ?_⟩
  · intro k f' hf'
    rw [hrow] at hf'
    split at hf'
    · rename_i hk
      cases hf'
      exact ⟨existing, hk ▸ hexisting, rfl, hkind.symm, fun _ => rfl⟩
    · exact ⟨f', hf', rfl, rfl, fun _ => rfl⟩
  · intro k f hf
    rw [hrow]
    split
    · rename_i hk
      rw [hk, hexisting] at hf
      cases hf
      exact ⟨_, rfl, rfl, hkind.symm⟩
    · exact ⟨f, hf, rfl, rfl⟩
  · intro k b' hb'
    rw [hblobs', hblobs]
    split
    · rename_i hk
      rw [hk, hb] at hb'
      cases hb'
      exact ⟨_, rfl, rfl⟩
    · exact ⟨b', hb', rfl⟩

theorem deleteFileNameID_ok (h : s.deleteFileNameID t id = .ok s') :
    s'.files = s.files ∧ s'.blobs = s.blobs ∧ s'.tree = Table.delete TreeRow.id s.tree id := by
  obtain ⟨-, -, rfl⟩ := ok_of_map h
  exact ⟨rfl, rfl, rfl⟩

theorem deleteFileRow_ok (h : s.deleteFileRow t id = .ok s') :
    s'.files = Table.delete FileRow.id s.files id ∧ s'.blobs = s.blobs ∧ s'.tree = s.tree := by
  obtain ⟨-, -, rfl⟩ := ok_of_map h
  exact ⟨rfl, rfl, rfl⟩

theorem deleteBlob_ok (h : s.deleteBlob t id = .ok s') :
    s'.files = s.files ∧ s'.blobs = Table.delete BlobRow.id s.blobs id ∧ s'.tree = s.tree := by
  obtain ⟨-, -, rfl⟩ := ok_of_map h
  exact ⟨rfl, rfl, rfl⟩

/-- The last two statements of a deletion. -/
theorem removes_of_deletes (hwas : row FileRow.id s.files id = some f)
    (hfiles : s₀.files = s.files) (htree : s₀.tree = s.tree)
    (hblob : ∀ k b, row BlobRow.id s.blobs k = some b →
      (f.isFolder = false → k ≠ f.blobsID) → row BlobRow.id s₀.blobs k = some b)
    (hentry : s₀.deleteFileNameID t id = .ok s₁) (hfile : s₁.deleteFileRow t id = .ok s')
    (hchildless : ∀ k r, k ≠ id → row TreeRow.id s.tree k = some r → r.parentID = id →
      r.parentID = "") :
    Removes s s' id f := by
  obtain ⟨hf₁, hb₁, ht₁⟩ := deleteFileNameID_ok hentry
  obtain ⟨hf₂, hb₂, ht₂⟩ := deleteFileRow_ok hfile
  refine ⟨hwas, ?_, ?_, ?_, ?_, hchildless⟩
  · intro hnd
    rw [ht₂, ht₁, htree]
    exact Table.nodup_delete hnd
  · intro k
    rw [hf₂, hf₁, hfiles, Table.get_delete]
  · intro k
    rw [ht₂, ht₁, htree, Table.get_delete]
  intro k b hb hne
  rw [hb₂, hb₁]
  exact hblob k b hb hne

/-- The parents of items are folders, so a file has no children. -/
theorem childless_of_file (hinv : Inv s) (hf : row FileRow.id s.files id = some f)
    (hkind : f.isFolder = false) (k : String) (r : TreeRow)
    (hr : row TreeRow.id s.tree k = some r) (hpar : r.parentID = id) : r.parentID = "" := by
  rcases hinv.parent k r hr with hroot | ⟨p, hp, -, hfolder⟩
  · exact hroot
  rw [hpar, hf] at hp
  cases hp
  rw [hkind] at hfolder
  cases hfolder

theorem deleteFile_removes (hinv : Inv s) (h : deleteFile bw t id s = .ok s') :
    ∃ f, Removes s s' id f := by
  have h := ok_of_guarded h
  obtain ⟨f, hf, h⟩ := ok_of_bind h
  have hf := (getFile_iff.mp (ok_of_orError hf)).1
  split at h
  · cases h
  rename_i hkind
  have hkind : f.isFolder = false := by simpa using hkind
  obtain ⟨s₀, hblob, h⟩ := ok_of_bind h
  obtain ⟨s₁, hentry, h⟩ := ok_of_bind h
  obtain ⟨hfiles, hblobs, htree⟩ := deleteBlob_ok (ok_of_mapError hblob)
  refine ⟨f, removes_of_deletes hf hfiles htree ?_ (ok_of_mapError hentry) (ok_of_mapError h)
    fun k r _ hr => childless_of_file hinv hf hkind k r hr⟩
  intro k b hb hne
  rw [hblobs, Table.get_delete, if_neg (hne hkind)]
  exact hb

/-- Only an empty folder is deleted. -/
theorem deleteFolder_removes (hinv : Inv s) (h : deleteFolder bw t id s = .ok s') :
    ∃ f, Removes s s' id f := by
  have h := ok_of_guarded h
  obtain ⟨f, hf, h⟩ := ok_of_bind h
  have hf := getFile_iff.mp (ok_of_orError hf)
  split at h
  · cases h
  split at h
  · cases h
  rename_i hchildren
  obtain ⟨s₁, hentry, h⟩ := ok_of_bind h
  refine ⟨f, removes_of_deletes hf.1 rfl rfl (fun _ _ hb _ => hb) (ok_of_mapError hentry)
    (ok_of_mapError h) ?_⟩
  intro k r _ hr hpar
  rcases hinv.parent k r hr with hroot | ⟨p, hp, hten, -⟩
  · exact hroot
  -- a child of the folder is of the folder's tenant, and would have been seen
  rw [hpar, hf.1] at hp
  cases hp
  refine absurd (List.any_eq_true.mpr ⟨r, Table.mem_of_get hr, ?_⟩) hchildren
  simpa using ⟨hten.symm.trans hf.2, hpar⟩

end Calls

/-! ## 2. Careful calls -/

/-- The parent of a new item is the root or a folder of the tenant. -/
def ParentOk (s : Store) (t parentID : String) : Prop :=
  parentID = "" ∨ ∃ p, s.getFile t parentID = some p ∧ p.isFolder = true

/-- What the code does not check of a call. -/
def Call.Careful (s : Store) (t : String) : Call → Prop
  | .createFile _ _ parentID _ _ _ => ParentOk s t parentID
  | .createFolder _ parentID name => ParentOk s t parentID ∧ name ≠ "" ∧ '/' ∉ name.toList
  | .renameFile _ newName | .renameFolder _ newName => newName ≠ ""
  | .moveFolder id np => ∀ x k, Below (s.getEntry t) id x k →
      ∀ top, (np = "" ∧ top = []) ∨ Chain (s.getEntry t) np top → top.length + 1 + k ≤ walkRoom
  | .moveFile _ _ | .updateFile _ _ _ | .deleteFile _ | .deleteFolder _ => True

theorem ParentOk.folder (h : ParentOk s t parentID) : parentID = "" ∨
    ∃ p, row FileRow.id s.files parentID = some p ∧ p.tenant = t ∧ p.isFolder = true := by
  rcases h with hroot | ⟨p, hp, hfolder⟩
  · exact .inl hroot
  · exact .inr ⟨p, (getFile_iff.mp hp).1, (getFile_iff.mp hp).2, hfolder⟩

theorem inv_rename {folder : Bool} {file : File} (hinv : Inv s) (hne : newName ≠ "")
    (h : rename bw t folder missing wrongKind failed id newName s = .ok (file, s')) : Inv s' := by
  obtain ⟨hslash, r, hchanges⟩ := rename_changes h
  refine inv_changes hinv hchanges ?_ ⟨hne, hslash⟩ ?_
  · exact hinv.parent id r (getEntry_iff.mp hchanges.was).1
  intro x names hchain hlen
  obtain ⟨hnew, hold⟩ := hchanges.getEntry
  have hparents : ∀ y g, s.getEntry t y = some g →
      ∃ g', s'.getEntry t y = some g' ∧ g'.parentID = g.parentID := by
    intro y g hg
    by_cases hy : y = id
    · subst hy
      rw [hchanges.was] at hg
      cases hg
      exact ⟨_, hnew, rfl⟩
    · exact ⟨g, (hold y hy).trans hg, rfl⟩
  obtain ⟨names', hchain', hlen'⟩ := chain_rename hparents hchain
  exact ⟨names', hchain', hlen' ▸ hlen⟩

variable {f : FileRow}

/-- Nothing is below a file. -/
theorem below_file (hinv : Inv s) (hf : s.getFile t id = some f) (hkind : f.isFolder = false)
    {x : String} {k : Nat} (h : Below (s.getEntry t) id x k) : x = id ∧ k = 0 := by
  induction h with
  | self => exact ⟨rfl, rfl⟩
  | child hr hne _ ih =>
    exact absurd (childless_of_file hinv (getFile_iff.mp hf).1 hkind _ _ (getEntry_iff.mp hr).1 ih.1)
      hne

variable {np : String}

/-- No folder is below a file. -/
theorem not_above_folder (hinv : Inv s) {p : FileRow} (hf : s.getFile t id = some f)
    (hkind : f.isFolder = false) (hp : s.getFile t np = some p) (hfolder : p.isFolder = true) :
    ¬ Relation.ReflTransGen (Up (s.getEntry t)) np id := by
  intro hup
  rcases hup.cases_tail with heq | ⟨y, -, r, hr, hpar, hne⟩
  · rw [← heq, hf] at hp
    cases hp
    rw [hkind] at hfolder
    cases hfolder
  · have hroot := childless_of_file hinv (getFile_iff.mp hf).1 hkind y r (getEntry_iff.mp hr).1 hpar
    rw [hpar] at hroot
    exact hne hroot

/-- Moving keeps the tree a tree. -/
theorem inv_moves {np : String} {folder : Bool} (hinv : Inv s) (h : Moves s s' t id np folder)
    (hroom : folder = true → ∀ x k, Below (s.getEntry t) id x k →
      ∀ top, (np = "" ∧ top = []) ∨ Chain (s.getEntry t) np top → top.length + 1 + k ≤ walkRoom) :
    Inv s' := by
  rcases h.effect with rfl | ⟨⟨r, hchanges⟩, own, hown, hownlen⟩
  · exact hinv
  obtain ⟨hnew, hold⟩ := hchanges.getEntry
  obtain ⟨f, hf, hkind⟩ := h.item
  have hten := (getEntry_iff.mp hchanges.was).2
  refine inv_changes hinv hchanges ?_ (hinv.name id r (getEntry_iff.mp hchanges.was).1) ?_
  · rcases h.target with hroot | ⟨p, hp, hfolder⟩
    · exact .inl hroot
    · exact .inr ⟨p, (getFile_iff.mp hp).1, (getFile_iff.mp hp).2.trans hten.symm, hfolder⟩
  · -- the target's chain does not pass the item, before or after
    have htop : ∃ top, ((np = "" ∧ top = []) ∨ Chain (s.getEntry t) np top) ∧
        ((np = "" ∧ top = []) ∨ (np ≠ "" ∧ Chain (s'.getEntry t) np top)) := by
      by_cases hnp : np = ""
      · exact ⟨[], .inl ⟨hnp, rfl⟩, .inl ⟨hnp, rfl⟩⟩
      obtain ⟨p, hp, hfolder⟩ := h.target.resolve_left hnp
      have havoid : ¬ Relation.ReflTransGen (Up (s.getEntry t)) np id := by
        cases folder with
        | true => exact (h.free rfl).resolve_left hnp
        | false => exact not_above_folder hinv hf hkind hp hfolder
      obtain ⟨g, hg, hgten⟩ := hinv.entry np p (getFile_iff.mp hp).1
      obtain ⟨top, htop, -⟩ := hinv.level np g hg
      rw [hgten, (getFile_iff.mp hp).2] at htop
      exact ⟨top, .inr htop, .inr ⟨hnp, chain_avoid hold havoid htop⟩⟩
    obtain ⟨top, hbefore, hafter⟩ := htop
    intro x names hchain hlen
    obtain ⟨names', hchain', hlen' | ⟨k, hbelow, hlen'⟩⟩ := chain_move hold hnew hafter hchain
    · exact ⟨names', hchain', hlen' ▸ hlen⟩
    cases folder with
    | true => exact ⟨names', hchain', hlen' ▸ hroom rfl x k hbelow top hbefore⟩
    | false =>
      obtain ⟨rfl, -⟩ := below_file hinv hf hkind hbelow
      exact ⟨own, hown, hownlen⟩

/-- A careful call keeps the invariant. -/
theorem inv_run {c : Call} (hinv : Inv s) (hcareful : c.Careful s t)
    (h : c.run bw t s = .ok s') : Inv s' := by
  cases c with
  | createFile fileID blobID parentID name contentType data =>
    obtain ⟨⟨file, s₁⟩, hcall, rfl⟩ := ok_of_map h
    obtain ⟨hcreates, hname⟩ := createFile_creates hcall
    exact inv_creates hinv hcreates (ParentOk.folder hcareful) hname
  | createFolder folderID parentID name =>
    obtain ⟨⟨file, s₁⟩, hcall, rfl⟩ := ok_of_map h
    exact inv_creates hinv (createFolder_creates hcall) hcareful.1.folder hcareful.2
  | renameFile id newName | renameFolder id newName =>
    obtain ⟨⟨file, s₁⟩, hcall, rfl⟩ := ok_of_map h
    exact inv_rename hinv hcareful hcall
  | moveFile id np =>
    obtain ⟨⟨file, s₁⟩, hcall, rfl⟩ := ok_of_map h
    exact inv_moves hinv (moveFile_moves hcall) nofun
  | moveFolder id np =>
    obtain ⟨⟨file, s₁⟩, hcall, rfl⟩ := ok_of_map h
    exact inv_moves hinv (moveFolder_moves hcall) fun _ => hcareful
  | updateFile id contentType data =>
    obtain ⟨⟨file, s₁⟩, hcall, rfl⟩ := ok_of_map h
    exact inv_rewrites hinv (updateFile_rewrites hcall)
  | deleteFile id =>
    obtain ⟨f, hremoves⟩ := deleteFile_removes hinv h
    exact inv_removes hinv hremoves
  | deleteFolder id =>
    obtain ⟨f, hremoves⟩ := deleteFolder_removes hinv h
    exact inv_removes hinv hremoves

/-! ## 3. Paths -/

section

variable {names : List String}

/-- The joined names of a path start and end in a name, so no slash is cut. -/
theorem cutSlashes_join (hne : names ≠ []) (hnames : ∀ w ∈ names, w ≠ "" ∧ '/' ∉ w.toList) :
    cutSlashes (join "/" names) = join "/" names := by
  obtain ⟨⟨w, hw, rest, hfirst⟩, v, hv, front, hlast⟩ := join_ends "/" hne
  have hpre : hasPrefix (join "/" names) "/" = false := by
    rw [hasPrefix, hfirst, Bool.eq_false_iff, ne_eq, List.isPrefixOf_iff_prefix]
    rintro ⟨l, hl⟩
    cases hc : w.toList with
    | nil => exact (hnames w hw).1 (String.toList_eq_nil_iff.mp hc)
    | cons c cs =>
      rw [hc] at hl
      cases hl
      exact (hnames w hw).2 (hc ▸ List.mem_cons_self)
  have hsuf : hasSuffix (join "/" names) "/" = false := by
    rw [hasSuffix, hlast, Bool.eq_false_iff, ne_eq, List.isSuffixOf_iff_suffix]
    rintro ⟨l, hl⟩
    have hend := congrArg List.getLast? hl
    rw [List.getLast?_append_of_ne_nil _ fun h => (hnames v hv).1 (String.toList_eq_nil_iff.mp h)]
      at hend
    exact (hnames v hv).2 (List.mem_of_getLast? (hend.symm.trans (by simp)))
  rw [cutSlashes, hpre]
  simp [hsuf]

/-- The path of plain names has them as its segments. -/
theorem pathSegments_path (hne : names ≠ []) (hnames : ∀ w ∈ names, w ≠ "" ∧ '/' ∉ w.toList) :
    pathSegments (cutSlashes (join "/" names)) = names := by
  have hsplit : split (join "/" names) '/' = names :=
    split_join hne fun w hw => (hnames w hw).2
  rw [cutSlashes_join hne hnames, pathSegments, hsplit]
  exact List.filter_eq_self.mpr fun w hw => by simpa using (hnames w hw).1

theorem resolveSegments_append (cur : String) (names : List String) (name : String) :
    resolveSegments s t cur (names ++ [name]) =
      (resolveSegments s t cur names).bind fun id => s.findFileIDByName t id name := by
  induction names generalizing cur with
  | nil =>
    rw [List.nil_append, resolveSegments, resolveSegments, Option.bind_some]
    cases s.findFileIDByName t cur name <;> rfl
  | cons w ws ih =>
    rw [List.cons_append, resolveSegments, resolveSegments]
    cases s.findFileIDByName t cur w with
    | none => rfl
    | some id => exact ih id

/-- The names of siblings being unique, a name leads to the item that has it. -/
theorem findFileIDByName_entry (hinv : Inv s) (hr : s.getEntry t id = some r) :
    s.findFileIDByName t r.parentID r.name = some id := by
  obtain ⟨hget, hten⟩ := getEntry_iff.mp hr
  cases hfind : s.tree.find? fun x => x.tenant = t ∧ x.parentID = r.parentID ∧ x.name = r.name with
  | none =>
    have := List.find?_eq_none.mp hfind r (Table.mem_of_get hget)
    simp [hten] at this
  | some x =>
    have hx := List.find?_some hfind
    have hgetx := Table.get_of_mem hinv.nodup (List.mem_of_find?_eq_some hfind)
    simp only [decide_eq_true_eq] at hx
    rw [Store.findFileIDByName, hfind, Option.map_some,
      hinv.unique x.id id x r hgetx hget (hx.1.trans hten.symm) hx.2.1 hx.2.2]

/-- The names of a chain lead back to its item. -/
theorem resolveSegments_chain (hinv : Inv s) (h : Chain (s.getEntry t) id names) :
    resolveSegments s t "" names = some id := by
  induction h with
  | root hr hroot =>
    rename_i id r
    rw [← List.nil_append [r.name], resolveSegments_append, resolveSegments, Option.bind_some,
      ← hroot, findFileIDByName_entry hinv hr]
  | under hr _ _ ih =>
    rw [resolveSegments_append, ih, Option.bind_some, findFileIDByName_entry hinv hr]

/-- The names of a chain are names of entries, and there is one. -/
theorem chain_names (hinv : Inv s) (h : Chain (s.getEntry t) id names) :
    names ≠ [] ∧ ∀ w ∈ names, w ≠ "" ∧ '/' ∉ w.toList := by
  induction h with
  | root hr _ =>
    refine ⟨List.cons_ne_nil _ _, fun w hw => ?_⟩
    rw [List.mem_singleton.mp hw]
    exact hinv.name _ _ (getEntry_iff.mp hr).1
  | under hr _ _ ih =>
    exact ⟨by simp, List.forall_mem_append.mpr
      ⟨ih.2, List.forall_mem_singleton.mpr (hinv.name _ _ (getEntry_iff.mp hr).1)⟩⟩

end

/-! ## 4. Runs -/

/-- The tables after some calls, one transaction after the other, by any tenants and with any
callback.  A call that fails leaves the tables as they are, so it makes no step. -/
inductive Reached (allowed : Store → String → Call → Prop) : Store → Prop
  | init : Reached allowed Store.empty
  | call {bw : BeforeWrite} {t : String} {c : Call} {s s' : Store} : Reached allowed s →
      allowed s t c → c.run bw t s = .ok s' → Reached allowed s'

/-- The tree of a tenant as it should be. -/
structure WellFormed (s : Store) (t : String) : Prop where
  acyclic : ∀ id, ¬ Relation.TransGen (Up (s.getEntry t)) id id
  parent : ∀ id r, s.getEntry t id = some r → ParentOk s t r.parentID
  siblings : ∀ id id' r r', s.getEntry t id = some r → s.getEntry t id' = some r' →
    r.parentID = r'.parentID → r.name = r'.name → id = id'
  names : ∀ id r, s.getEntry t id = some r → r.name ≠ "" ∧ '/' ∉ r.name.toList
  /-- a file is fetched with its content, a folder without -/
  fetched : ∀ id f, s.getFile t id = some f → ∃ file,
    getFileByID s t id (!f.isFolder) = .ok file ∧ file.id = id ∧
      resolveSegments s t "" (pathSegments file.path) = some id

/-- Careful calls keep the invariant, from the empty tables on. -/
theorem inv_reached (h : Reached Call.Careful s) : Inv s := by
  induction h with
  | init => exact inv_empty
  | call _ hcareful hrun ih => exact inv_run ih hcareful hrun

/-- Every item is fetched, and its path leads back to it. -/
theorem fetched_of_inv (hinv : Inv s) (hf : s.getFile t id = some f) :
    ∃ file, getFileByID s t id (!f.isFolder) = .ok file ∧
      file.id = id ∧ resolveSegments s t "" (pathSegments file.path) = some id := by
  obtain ⟨hget, hten⟩ := getFile_iff.mp hf
  obtain ⟨r, hr, hrten⟩ := hinv.entry id f hget
  obtain ⟨names, hchain, hlen⟩ := hinv.level id r hr
  rw [hrten, hten] at hchain
  obtain ⟨hne, hnames⟩ := chain_names hinv hchain
  have hwalk : namesUp s t walkRoom [] id = .ok names :=
    namesUp_of_chain hchain hlen fun y hy => by cases hy
  have hdata : ∃ data, (if (!f.isFolder) = true then
      orError ((s.getBlob t f.blobsID).map BlobRow.data) notFound else .ok []) = .ok data := by
    cases hkind : f.isFolder with
    | true => exact ⟨[], rfl⟩
    | false =>
      obtain ⟨b, hb, hbten⟩ := hinv.blob id f hget hkind
      rw [getBlob_iff.mpr ⟨hb, hbten.trans hten⟩]
      exact ⟨b.data, rfl⟩
  obtain ⟨data, hdata⟩ := hdata
  have hfetch : ∃ file, getFileByID s t id (!f.isFolder) = .ok file ∧ file.id = f.id ∧
      file.path = cutSlashes (join "/" names) := by
    rw [getFileByID, hf]
    dsimp only
    rw [hdata]
    rw [hwalk]
    exact ⟨_, rfl, rfl, rfl⟩
  obtain ⟨file, hfile, hid, hpath⟩ := hfetch
  refine ⟨file, hfile, hid.trans (Table.key_of_get hget), ?_⟩
  rw [hpath, pathSegments_path hne hnames, resolveSegments_chain hinv hchain]

/-- In every run of careful calls the tree of every tenant is well formed. -/
theorem tree_well_formed {s : Store} (h : Reached Call.Careful s) (t : String) : WellFormed s t where
  acyclic := inv_acyclic (inv_reached h) t
  parent id r hr := by
    obtain ⟨hget, hten⟩ := getEntry_iff.mp hr
    rcases (inv_reached h).parent id r hget with hroot | ⟨p, hp, hpten, hfolder⟩
    · exact .inl hroot
    · exact .inr ⟨p, getFile_iff.mpr ⟨hp, hpten.trans hten⟩, hfolder⟩
  siblings id id' r r' hr hr' := by
    obtain ⟨hget, hten⟩ := getEntry_iff.mp hr
    obtain ⟨hget', hten'⟩ := getEntry_iff.mp hr'
    exact (inv_reached h).unique id id' r r' hget hget' (hten.trans hten'.symm)
  names id r hr := (inv_reached h).name id r (getEntry_iff.mp hr).1
  fetched _ _ hf := fetched_of_inv (inv_reached h) hf

/-- No callback. -/
def noCallback : BeforeWrite := fun _ _ => none

def docs : Store := ⟨[⟨"d", "acme", "", "", true⟩], [⟨"d", "acme", "", "docs"⟩], []⟩

def docsNotes : Store :=
  ⟨[⟨"d", "acme", "", "", true⟩, ⟨"f", "acme", "text/plain", "b", false⟩],
    [⟨"d", "acme", "", "docs"⟩, ⟨"f", "acme", "d", "notes"⟩], [⟨"b", "acme", [104, 105]⟩]⟩

theorem tree_well_formed_docs : Reached Call.Careful docsNotes ∧
    ((getFileByID docsNotes "acme" "f" true).map File.path).toOption = some "docs/notes" ∧
    WellFormed docsNotes "acme" := by
  have hfolder : Call.run noCallback "acme" (.createFolder "d" "" "docs") Store.empty = .ok docs :=
    by rfl
  have hfile : Call.run noCallback "acme" (.createFile "f" "b" "d" "notes" "text/plain" [104, 105])
      docs = .ok docsNotes := by rfl
  have hcareful : Call.Careful Store.empty "acme" (.createFolder "d" "" "docs") :=
    ⟨.inl rfl, by decide, by decide⟩
  have hparent : Call.Careful docs "acme"
      (.createFile "f" "b" "d" "notes" "text/plain" [104, 105]) := Or.inr ⟨_, rfl, rfl⟩
  have hreached : Reached Call.Careful docsNotes :=
    .call (.call .init hcareful hfolder) hparent hfile
  exact ⟨hreached, by rfl, tree_well_formed hreached "acme"⟩

/-- A file that has taken a file as its parent. -/
def beneath : Store :=
  ⟨[⟨"f", "acme", "text/plain", "b", false⟩, ⟨"g", "acme", "text/plain", "c", false⟩],
    [⟨"f", "acme", "", "notes"⟩, ⟨"g", "acme", "f", "more"⟩],
    [⟨"b", "acme", []⟩, ⟨"c", "acme", []⟩]⟩

/-- The same after the parent's removal. -/
def orphaned : Store :=
  ⟨[⟨"g", "acme", "text/plain", "c", false⟩], [⟨"g", "acme", "f", "more"⟩], [⟨"c", "acme", []⟩]⟩

/-- A file is created beneath a file, which is then removed: what was beneath it is still stored and
can no longer be fetched. -/
theorem file_beneath_file_orphaned : Reached (fun _ _ _ => True) orphaned ∧
    getFileByID orphaned "acme" "g" true =
      .error ("getFileByID: failed to get name for item ID 'f': " ++ notFound) ∧
    ¬ WellFormed orphaned "acme" := by
  have hfirst : Call.run noCallback "acme" (.createFile "f" "b" "" "notes" "text/plain" [])
      Store.empty = .ok ⟨[⟨"f", "acme", "text/plain", "b", false⟩], [⟨"f", "acme", "", "notes"⟩],
        [⟨"b", "acme", []⟩]⟩ := by rfl
  have hsecond : Call.run noCallback "acme" (.createFile "g" "c" "f" "more" "text/plain" [])
      ⟨[⟨"f", "acme", "text/plain", "b", false⟩], [⟨"f", "acme", "", "notes"⟩],
        [⟨"b", "acme", []⟩]⟩ = .ok beneath := by rfl
  have hthird : Call.run noCallback "acme" (.deleteFile "f") beneath = .ok orphaned := by rfl
  have hfetch : getFileByID orphaned "acme" "g" true =
      .error ("getFileByID: failed to get name for item ID 'f': " ++ notFound) := by rfl
  refine ⟨.call (.call (.call .init trivial hfirst) trivial hsecond) trivial hthird, hfetch, ?_⟩
  intro hwell
  have hstored : orphaned.getFile "acme" "g" = some ⟨"g", "acme", "text/plain", "c", false⟩ := by rfl
  obtain ⟨file, hfile, -⟩ := hwell.fetched "g" _ hstored
  cases hfile

end Contenox.Vfs
