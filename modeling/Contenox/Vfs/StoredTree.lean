/-
# Chains of the stored tree

The chain of an item is its names from the root down.  The two walks of the service follow it, and
it carries the invariant of the tables: a call changes one row of the tree, and the lemmas on chains
say what that does to the chains of the others.

The invariant is stated of the tables of `Stored`, and kept by the four effects a call can have on
them: a new item, a changed entry, a rewritten file, a removed item.
-/
import Contenox.Vfs.Stored
import Mathlib.Logic.Relation

namespace Contenox.Vfs

open Lib
open Lib.Table renaming get → row

variable {id t : String} {names : List String} {s : Store}

/-! ## 1. Chains -/

/-- The entries of one tenant. -/
abbrev Entries := String → Option TreeRow

/-- The names from the root down to an item. -/
inductive Chain (e : Entries) : String → List String → Prop
  | root {id : String} {r : TreeRow} : e id = some r → r.parentID = "" → Chain e id [r.name]
  | under {id : String} {r : TreeRow} {names : List String} : e id = some r → r.parentID ≠ "" →
      Chain e r.parentID names → Chain e id (names ++ [r.name])

/-- One step up. -/
def Up (e : Entries) (id parent : String) : Prop :=
  ∃ r, e id = some r ∧ r.parentID = parent ∧ parent ≠ ""

/-- An item so many levels below another. -/
inductive Below (e : Entries) (top : String) : String → Nat → Prop
  | self : Below e top top 0
  | child {id : String} {r : TreeRow} {k : Nat} : e id = some r → r.parentID ≠ "" →
      Below e top r.parentID k → Below e top id (k + 1)

variable {r : TreeRow}

section Chains

variable {e e' : Entries} {x : String} {names' : List String}

theorem chain_unique (h : Chain e id names) (h' : Chain e id names') : names = names' := by
  induction h generalizing names' with
  | root hr hroot =>
    cases h' with
    | root hr' _ =>
      cases hr.symm.trans hr'
      rfl
    | under hr' hne _ =>
      cases hr.symm.trans hr'
      exact absurd hroot hne
  | under hr hne _ ih =>
    cases h' with
    | root hr' hroot =>
      cases hr.symm.trans hr'
      exact absurd hroot hne
    | under hr' _ h' =>
      cases hr.symm.trans hr'
      rw [ih h']

/-- The chain of a parent is one shorter. -/
theorem chain_up (h : Chain e id names) {parent : String} (hup : Up e id parent) :
    ∃ names', Chain e parent names' ∧ names'.length + 1 = names.length := by
  obtain ⟨r, hr, rfl, hne⟩ := hup
  cases h with
  | root hr' hroot =>
    cases hr.symm.trans hr'
    exact absurd hroot hne
  | under hr' _ h =>
    cases hr.symm.trans hr'
    exact ⟨_, h, by simp⟩

theorem chain_above (h : Chain e id names) {top : String} (hup : Relation.TransGen (Up e) id top) :
    ∃ names', Chain e top names' ∧ names'.length < names.length := by
  induction hup with
  | single hup =>
    obtain ⟨names', h', hlen⟩ := chain_up h hup
    exact ⟨names', h', by omega⟩
  | tail _ hup ih =>
    obtain ⟨names', h', hlt⟩ := ih
    obtain ⟨names'', h'', hlen⟩ := chain_up h' hup
    exact ⟨names'', h'', by omega⟩

/-- An item with a chain is not above itself. -/
theorem chain_acyclic (h : Chain e id names) : ¬ Relation.TransGen (Up e) id id := by
  intro hup
  obtain ⟨names', h', hlt⟩ := chain_above h hup
  rw [chain_unique h' h] at hlt
  omega

/-- Chains grow with the entries. -/
theorem chain_mono (hsub : ∀ x r, e x = some r → e' x = some r) (h : Chain e id names) :
    Chain e' id names := by
  induction h with
  | root hr hroot => exact .root (hsub _ _ hr) hroot
  | under hr hne _ ih => exact .under (hsub _ _ hr) hne ih

/-- A chain that does not pass an item does not depend on it. -/
theorem chain_avoid (hsame : ∀ y, y ≠ x → e' y = e y)
    (havoid : ¬ Relation.ReflTransGen (Up e) id x) (h : Chain e id names) : Chain e' id names := by
  induction h with
  | root hr hroot =>
    refine .root ?_ hroot
    rw [hsame _ fun heq => havoid (heq ▸ .refl)]
    exact hr
  | under hr hne _ ih =>
    refine .under ?_ hne (ih fun hup => havoid (.head ⟨_, hr, rfl, hne⟩ hup))
    rw [hsame _ fun heq => havoid (heq ▸ .refl)]
    exact hr

/-- A new name changes names, not levels. -/
theorem chain_rename (hsame : ∀ y r, e y = some r → ∃ r', e' y = some r' ∧ r'.parentID = r.parentID)
    (h : Chain e id names) : ∃ names', Chain e' id names' ∧ names'.length = names.length := by
  induction h with
  | root hr hroot =>
    obtain ⟨r', hr', hparent⟩ := hsame _ _ hr
    exact ⟨_, .root hr' (hparent.trans hroot), rfl⟩
  | under hr hne _ ih =>
    obtain ⟨r', hr', hparent⟩ := hsame _ _ hr
    obtain ⟨names', h', hlen⟩ := ih
    rw [← hparent] at hne h'
    exact ⟨_, .under hr' hne h', by simp [hlen]⟩

/-- An item under a new parent: what is below it moves with it, the rest stays. -/
theorem chain_move {np : String} {top : List String} (hsame : ∀ y, y ≠ x → e' y = e y)
    (hx : e' x = some { r with parentID := np })
    (htop : (np = "" ∧ top = []) ∨ (np ≠ "" ∧ Chain e' np top)) (h : Chain e id names) :
    ∃ names', Chain e' id names' ∧
      (names'.length = names.length ∨ ∃ k, Below e x id k ∧ names'.length = top.length + 1 + k) := by
  have hself : Chain e' x (top ++ [r.name]) := by
    rcases htop with ⟨rfl, rfl⟩ | ⟨hne, htop⟩
    · exact .root (r := { r with parentID := "" }) hx rfl
    · exact .under (r := { r with parentID := np }) hx hne htop
  induction h with
  | @root id s hs hroot =>
    by_cases hid : id = x
    · subst hid
      exact ⟨_, hself, .inr ⟨0, .self, by simp⟩⟩
    · exact ⟨_, .root ((hsame _ hid).trans hs) hroot, .inl rfl⟩
  | @under id s names hs hne _ ih =>
    by_cases hid : id = x
    · subst hid
      exact ⟨_, hself, .inr ⟨0, .self, by simp⟩⟩
    obtain ⟨names', h', hlen⟩ := ih
    refine ⟨_, .under ((hsame _ hid).trans hs) hne h', ?_⟩
    rcases hlen with hlen | ⟨k, hbelow, hlen⟩
    · exact .inl (by simp [hlen])
    · exact .inr ⟨k + 1, .child hs hne hbelow, by simp [hlen]; omega⟩

end Chains

/-! ## 2. The walks -/

section

variable {seen : List String} {cur : String} {room : Nat}

/-- What the walk of `getFileByID` returns is a chain it had room for. -/
theorem namesUp_ok (h : namesUp s t room seen cur = .ok names) :
    Chain (s.getEntry t) cur names ∧ names.length ≤ room := by
  induction room generalizing seen cur names with
  | zero => cases h
  | succ room ih =>
    rw [namesUp] at h
    split at h
    · cases h
    split at h
    · cases h
    rename_i r hr
    split at h
    · rename_i hroot
      cases h
      exact ⟨.root hr hroot, by simp⟩
    · rename_i hne
      cases hup : namesUp s t room (cur :: seen) r.parentID with
      | error msg =>
        rw [hup] at h
        cases h
      | ok names' =>
        rw [hup] at h
        cases h
        obtain ⟨hchain, hlen⟩ := ih hup
        exact ⟨.under hr hne hchain, by simpa using hlen⟩

/-- A chain the walk has room for is found, if nothing on it has been seen: what was seen is further
down. -/
theorem namesUp_of_chain (hchain : Chain (s.getEntry t) cur names) (hlen : names.length ≤ room)
    (hseen : ∀ y ∈ seen, ∃ names', Chain (s.getEntry t) y names' ∧ names.length < names'.length) :
    namesUp s t room seen cur = .ok names := by
  induction hchain generalizing room seen with
  | @root cur r hr hroot =>
    cases room with
    | zero => simp at hlen
    | succ room =>
      have hcur : cur ∉ seen := by
        intro hmem
        obtain ⟨names', h', hlt⟩ := hseen cur hmem
        rw [chain_unique h' (.root hr hroot)] at hlt
        exact absurd hlt (Nat.lt_irrefl _)
      rw [namesUp, if_neg hcur, hr]
      dsimp only
      rw [if_pos hroot]
  | @under cur r names hr hne hup ih =>
    have hwhole : Chain (s.getEntry t) cur (names ++ [r.name]) := .under hr hne hup
    cases room with
    | zero => simp at hlen
    | succ room =>
      have hcur : cur ∉ seen := by
        intro hmem
        obtain ⟨names', h', hlt⟩ := hseen cur hmem
        rw [chain_unique h' hwhole] at hlt
        exact absurd hlt (Nat.lt_irrefl _)
      have hrest : namesUp s t room (cur :: seen) r.parentID = .ok names := by
        refine ih (by simpa using hlen) ?_
        intro y hy
        rcases List.mem_cons.mp hy with rfl | hy
        · exact ⟨_, hwhole, by simp⟩
        obtain ⟨names', h', hlt⟩ := hseen y hy
        refine ⟨names', h', ?_⟩
        rw [List.length_append] at hlt
        omega
      rw [namesUp, if_neg hcur, hr]
      dsimp only
      rw [if_neg hne, hrest]
      rfl

theorem getFileByID_chain {withBlob : Bool} {f : File} (h : getFileByID s t id withBlob = .ok f) :
    ∃ names, Chain (s.getEntry t) id names ∧ names.length ≤ walkRoom := by
  unfold getFileByID at h
  iterate 3
    split at h
    · cases h
  · rename_i names hnames
    exact ⟨names, namesUp_ok hnames⟩

/-- A walk that does not find the ancestor went past all items above. -/
theorem ancestorUp_false {check ancestor : String} (hne : cur ≠ ancestor)
    (h : ancestorUp s t check ancestor room seen cur = .ok false) :
    ¬ Relation.ReflTransGen (Up (s.getEntry t)) cur ancestor := by
  induction room generalizing seen cur with
  | zero => cases h
  | succ room ih =>
    rw [ancestorUp] at h
    split at h
    · cases h
    split at h
    · cases h
    rename_i r hr
    split at h
    · cases h
    rename_i hparent
    intro hup
    rcases hup.cases_head with heq | ⟨p, ⟨r', hr', hp, hpne⟩, hrest⟩
    · exact hne heq
    cases hr.symm.trans hr'
    subst hp
    split at h
    · exact hpne ‹_›
    · exact ih hparent h hrest

theorem isDescendantOrSelf_false {check ancestor : String} (hcheck : check ≠ "")
    (h : isDescendantOrSelf s t check ancestor = .ok false) :
    ¬ Relation.ReflTransGen (Up (s.getEntry t)) check ancestor := by
  unfold isDescendantOrSelf at h
  rw [if_neg hcheck] at h
  split at h
  · cases h
  · exact ancestorUp_false ‹_› h

end

/-! ## 3. The invariant -/

/-- What holds of the tables between transactions. -/
structure Inv (s : Store) : Prop where
  nodup : (s.tree.map TreeRow.id).Nodup
  /-- every entry is an item of its tenant -/
  file : ∀ id r, row TreeRow.id s.tree id = some r →
    ∃ f, row FileRow.id s.files id = some f ∧ f.tenant = r.tenant
  /-- every item has an entry -/
  entry : ∀ id f, row FileRow.id s.files id = some f →
    ∃ r, row TreeRow.id s.tree id = some r ∧ r.tenant = f.tenant
  blob : ∀ id f, row FileRow.id s.files id = some f → f.isFolder = false →
    ∃ b, row BlobRow.id s.blobs f.blobsID = some b ∧ b.tenant = f.tenant
  /-- no two files share their content -/
  owner : ∀ id id' f f', row FileRow.id s.files id = some f →
    row FileRow.id s.files id' = some f' → f.isFolder = false → f'.isFolder = false →
    f.blobsID = f'.blobsID → id = id'
  parent : ∀ id r, row TreeRow.id s.tree id = some r → r.parentID = "" ∨
    ∃ f, row FileRow.id s.files r.parentID = some f ∧ f.tenant = r.tenant ∧ f.isFolder = true
  name : ∀ id r, row TreeRow.id s.tree id = some r → r.name ≠ "" ∧ '/' ∉ r.name.toList
  unique : ∀ id id' r r', row TreeRow.id s.tree id = some r →
    row TreeRow.id s.tree id' = some r' → r.tenant = r'.tenant → r.parentID = r'.parentID →
    r.name = r'.name → id = id'
  level : ∀ id r, row TreeRow.id s.tree id = some r →
    ∃ names, Chain (s.getEntry r.tenant) id names ∧ names.length ≤ walkRoom

theorem inv_empty : Inv Store.empty where
  nodup := List.nodup_nil
  file := nofun
  entry := nofun
  blob := nofun
  owner := nofun
  parent := nofun
  name := nofun
  unique := nofun
  level := nofun

theorem getEntry_iff :
    s.getEntry t id = some r ↔ row TreeRow.id s.tree id = some r ∧ r.tenant = t := by
  simp [Store.getEntry, Option.filter_eq_some_iff]

theorem getFile_iff {f : FileRow} :
    s.getFile t id = some f ↔ row FileRow.id s.files id = some f ∧ f.tenant = t := by
  simp [Store.getFile, Option.filter_eq_some_iff]

theorem getBlob_iff {b : BlobRow} :
    s.getBlob t id = some b ↔ row BlobRow.id s.blobs id = some b ∧ b.tenant = t := by
  simp [Store.getBlob, Option.filter_eq_some_iff]

/-- No item is above itself. -/
theorem inv_acyclic (hinv : Inv s) (t x : String) :
    ¬ Relation.TransGen (Up (s.getEntry t)) x x := by
  intro hup
  obtain ⟨y, ⟨r, hr, -⟩, -⟩ := Relation.TransGen.head'_iff.mp hup
  obtain ⟨hget, hten⟩ := getEntry_iff.mp hr
  obtain ⟨names, hchain, -⟩ := hinv.level x r hget
  rw [hten] at hchain
  exact chain_acyclic hchain hup

/-! ## 4. What a call may do to the tables -/

section

variable {s' : Store} {f : FileRow} {r g : TreeRow} {k : String}

/-- A new item. -/
structure Creates (s s' : Store) (f : FileRow) (r : TreeRow) : Prop where
  id : f.id = r.id
  tenant : f.tenant = r.tenant
  noFile : row FileRow.id s.files r.id = none
  noEntry : row TreeRow.id s.tree r.id = none
  files : ∀ k, row FileRow.id s'.files k =
    if k = r.id then some f else row FileRow.id s.files k
  tree : ∀ k, row TreeRow.id s'.tree k =
    if k = r.id then some r else row TreeRow.id s.tree k
  nodup : (s.tree.map TreeRow.id).Nodup → (s'.tree.map TreeRow.id).Nodup
  blobs : ∀ k b, row BlobRow.id s.blobs k = some b → row BlobRow.id s'.blobs k = some b
  content : f.isFolder = false → row BlobRow.id s.blobs f.blobsID = none ∧
    ∃ b, row BlobRow.id s'.blobs f.blobsID = some b ∧ b.tenant = f.tenant
  sibling : ∀ k r', row TreeRow.id s.tree k = some r' → r'.tenant = r.tenant →
    r'.parentID = r.parentID → r'.name ≠ r.name
  level : ∃ names, Chain (s'.getEntry r.tenant) r.id names ∧ names.length ≤ walkRoom

theorem inv_creates (hinv : Inv s) (h : Creates s s' f r)
    (hparent : r.parentID = "" ∨ ∃ p, row FileRow.id s.files r.parentID = some p ∧
      p.tenant = r.tenant ∧ p.isFolder = true)
    (hname : r.name ≠ "" ∧ '/' ∉ r.name.toList) : Inv s' where
  nodup := h.nodup hinv.nodup
  file := by
    intro id g hg
    rcases Table.of_put h.tree hg with ⟨rfl, rfl⟩ | ⟨-, hg⟩
    · exact ⟨f, by rw [h.files, if_pos rfl], h.tenant⟩
    · obtain ⟨f', hf', hten⟩ := hinv.file id g hg
      exact ⟨f', Table.put_old h.files h.noFile hf', hten⟩
  entry := by
    intro id g hg
    rcases Table.of_put h.files hg with ⟨rfl, rfl⟩ | ⟨-, hg⟩
    · exact ⟨r, by rw [h.tree, if_pos rfl], h.tenant.symm⟩
    · obtain ⟨r', hr', hten⟩ := hinv.entry id g hg
      exact ⟨r', Table.put_old h.tree h.noEntry hr', hten⟩
  blob := by
    intro id g hg hfile
    rcases Table.of_put h.files hg with ⟨rfl, rfl⟩ | ⟨-, hg⟩
    · exact (h.content hfile).2
    · obtain ⟨b, hb, hten⟩ := hinv.blob id g hg hfile
      exact ⟨b, h.blobs _ _ hb, hten⟩
  owner := by
    -- the content of a new file is new, that of an old one was there
    have hfresh : ∀ id g, row FileRow.id s.files id = some g → g.isFolder = false →
        f.isFolder = false → g.blobsID ≠ f.blobsID := by
      intro id g hg hgfile hfile heq
      obtain ⟨b, hb, -⟩ := hinv.blob id g hg hgfile
      rw [heq, (h.content hfile).1] at hb
      cases hb
    intro id id' g g' hg hg' hfile hfile' heq
    rcases Table.of_put h.files hg with ⟨rfl, rfl⟩ | ⟨-, hg⟩
    · rcases Table.of_put h.files hg' with ⟨rfl, rfl⟩ | ⟨-, hg'⟩
      · rfl
      · exact absurd heq.symm (hfresh id' g' hg' hfile' hfile)
    · rcases Table.of_put h.files hg' with ⟨rfl, rfl⟩ | ⟨-, hg'⟩
      · exact absurd heq (hfresh id g hg hfile hfile')
      · exact hinv.owner id id' g g' hg hg' hfile hfile' heq
  parent := by
    intro id g hg
    rcases Table.of_put h.tree hg with ⟨rfl, rfl⟩ | ⟨-, hg⟩
    · rcases hparent with hroot | ⟨p, hp, hrest⟩
      · exact .inl hroot
      · exact .inr ⟨p, Table.put_old h.files h.noFile hp, hrest⟩
    · rcases hinv.parent id g hg with hroot | ⟨p, hp, hrest⟩
      · exact .inl hroot
      · exact .inr ⟨p, Table.put_old h.files h.noFile hp, hrest⟩
  name := by
    intro id g hg
    rcases Table.of_put h.tree hg with ⟨rfl, rfl⟩ | ⟨-, hg⟩
    · exact hname
    · exact hinv.name id g hg
  unique := by
    intro id id' g g' hg hg' hten hpar hnm
    rcases Table.of_put h.tree hg with ⟨rfl, rfl⟩ | ⟨-, hg⟩
    · rcases Table.of_put h.tree hg' with ⟨rfl, rfl⟩ | ⟨-, hg'⟩
      · rfl
      · exact absurd hnm.symm (h.sibling id' g' hg' hten.symm hpar.symm)
    · rcases Table.of_put h.tree hg' with ⟨rfl, rfl⟩ | ⟨-, hg'⟩
      · exact absurd hnm (h.sibling id g hg hten hpar)
      · exact hinv.unique id id' g g' hg hg' hten hpar hnm
  level := by
    intro id g hg
    rcases Table.of_put h.tree hg with ⟨rfl, rfl⟩ | ⟨-, hg⟩
    · exact h.level
    obtain ⟨names, hchain, hlen⟩ := hinv.level id g hg
    refine ⟨names, chain_mono ?_ hchain, hlen⟩
    intro x r' hr'
    rw [getEntry_iff] at hr' ⊢
    exact ⟨Table.put_old h.tree h.noEntry hr'.1, hr'.2⟩

/-- A change of an item's entry. -/
structure Changes (s s' : Store) (t id : String) (r r' : TreeRow) : Prop where
  was : s.getEntry t id = some r
  files : s'.files = s.files
  blobs : s'.blobs = s.blobs
  nodup : (s.tree.map TreeRow.id).Nodup → (s'.tree.map TreeRow.id).Nodup
  tree : ∀ k, row TreeRow.id s'.tree k =
    if k = id then some r' else row TreeRow.id s.tree k
  tenant : r'.tenant = r.tenant
  sibling : ∀ k g, k ≠ id → row TreeRow.id s.tree k = some g → g.tenant = t →
    g.parentID = r'.parentID → g.name ≠ r'.name

variable {r' : TreeRow}

theorem updateEntry_changes {f : TreeRow → TreeRow}
    (hf : ∀ r, (f r).id = r.id ∧ (f r).tenant = r.tenant)
    (h : s.updateEntry t id f = .ok s') : ∃ r, Changes s s' t id r (f r) := by
  unfold Store.updateEntry at h
  split at h
  · cases h
  rename_i r hr
  split at h
  · cases h
  rename_i hclash
  cases h
  refine ⟨r, hr, rfl, rfl, ?_, ?_, (hf r).2, ?_⟩
  · intro hnd
    rw [Table.map_key_update fun r => (hf r).1]
    exact hnd
  · intro k
    rw [Table.get_update fun r => (hf r).1, (getEntry_iff.mp hr).1]
    rfl
  · intro k g hk hg hten hpar hnm
    refine hclash (List.any_eq_true.mpr ⟨g, Table.mem_of_get hg, ?_⟩)
    rw [← Table.key_of_get hg] at hk
    simpa using ⟨hk, hten, hpar, hnm⟩

/-- The entries of the tenant after a change. -/
theorem Changes.getEntry (h : Changes s s' t id r r') :
    s'.getEntry t id = some r' ∧ ∀ k, k ≠ id → s'.getEntry t k = s.getEntry t k := by
  constructor
  · rw [getEntry_iff, h.tree, if_pos rfl]
    exact ⟨rfl, h.tenant.trans (getEntry_iff.mp h.was).2⟩
  intro k hk
  unfold Store.getEntry
  rw [h.tree, if_neg hk]

/-- Another tenant does not see it. -/
theorem Changes.getEntry_other {t' : String} (h : Changes s s' t id r r')
    (hne : t' ≠ t) : s'.getEntry t' = s.getEntry t' := by
  have hten := (getEntry_iff.mp h.was).2
  funext k
  unfold Store.getEntry
  rw [h.tree]
  split
  · rename_i hk
    subst hk
    rw [(getEntry_iff.mp h.was).1, Option.filter_some, Option.filter_some]
    simp [h.tenant, hten, Ne.symm hne]
  · rfl

theorem inv_changes (hinv : Inv s) (h : Changes s s' t id r r')
    (hparent : r'.parentID = "" ∨ ∃ p, row FileRow.id s.files r'.parentID = some p ∧
      p.tenant = r'.tenant ∧ p.isFolder = true) (hname : r'.name ≠ "" ∧ '/' ∉ r'.name.toList)
    (hlevel : ∀ x names, Chain (s.getEntry t) x names → names.length ≤ walkRoom →
      ∃ names', Chain (s'.getEntry t) x names' ∧ names'.length ≤ walkRoom) : Inv s' where
  nodup := h.nodup hinv.nodup
  file := by
    intro k g hg
    rw [h.files]
    rcases Table.of_put h.tree hg with ⟨rfl, rfl⟩ | ⟨-, hg⟩
    · obtain ⟨f, hf, hten⟩ := hinv.file k r (getEntry_iff.mp h.was).1
      exact ⟨f, hf, hten.trans h.tenant.symm⟩
    · exact hinv.file k g hg
  entry := by
    intro k f hf
    rw [h.files] at hf
    obtain ⟨g, hg, hten⟩ := hinv.entry k f hf
    by_cases hk : k = id
    · subst hk
      rw [(getEntry_iff.mp h.was).1] at hg
      cases hg
      exact ⟨r', by rw [h.tree, if_pos rfl], h.tenant.trans hten⟩
    · exact ⟨g, by rw [h.tree, if_neg hk]; exact hg, hten⟩
  blob := by
    rw [h.files, h.blobs]
    exact hinv.blob
  owner := by
    rw [h.files]
    exact hinv.owner
  parent := by
    intro k g hg
    rw [h.files]
    rcases Table.of_put h.tree hg with ⟨rfl, rfl⟩ | ⟨-, hg⟩
    · exact hparent
    · exact hinv.parent k g hg
  name := by
    intro k g hg
    rcases Table.of_put h.tree hg with ⟨rfl, rfl⟩ | ⟨-, hg⟩
    · exact hname
    · exact hinv.name k g hg
  unique := by
    have hten' : r'.tenant = t := h.tenant.trans (getEntry_iff.mp h.was).2
    intro k k' g g' hg hg' hten hpar hnm
    rcases Table.of_put h.tree hg with ⟨rfl, rfl⟩ | ⟨hk, hg⟩
    · rcases Table.of_put h.tree hg' with ⟨rfl, rfl⟩ | ⟨hk', hg'⟩
      · rfl
      · exact absurd hnm.symm (h.sibling k' g' hk' hg' (hten.symm.trans hten') hpar.symm)
    · rcases Table.of_put h.tree hg' with ⟨rfl, rfl⟩ | ⟨-, hg'⟩
      · exact absurd hnm (h.sibling k g hk hg (hten.trans hten') hpar)
      · exact hinv.unique k k' g g' hg hg' hten hpar hnm
  level := by
    intro k g hg
    -- the chains of this tenant are `hlevel`'s, those of another stay
    have hold : ∃ g₀, row TreeRow.id s.tree k = some g₀ ∧ g₀.tenant = g.tenant := by
      rcases Table.of_put h.tree hg with ⟨rfl, rfl⟩ | ⟨-, hg⟩
      · exact ⟨r, (getEntry_iff.mp h.was).1, h.tenant.symm⟩
      · exact ⟨g, hg, rfl⟩
    obtain ⟨g₀, hg₀, hten⟩ := hold
    obtain ⟨names, hchain, hlen⟩ := hinv.level k g₀ hg₀
    rw [hten] at hchain
    by_cases htt : g.tenant = t
    · rw [htt] at hchain ⊢
      exact hlevel k names hchain hlen
    · rw [h.getEntry_other htt]
      exact ⟨names, hchain, hlen⟩

/-- New content of a file: its row and its blob keep what the tree depends on. -/
structure Rewrites (s s' : Store) : Prop where
  tree : s'.tree = s.tree
  file : ∀ k f', row FileRow.id s'.files k = some f' → ∃ f,
    row FileRow.id s.files k = some f ∧ f'.tenant = f.tenant ∧ f'.isFolder = f.isFolder ∧
      (f.isFolder = false → f'.blobsID = f.blobsID)
  kept : ∀ k f, row FileRow.id s.files k = some f → ∃ f',
    row FileRow.id s'.files k = some f' ∧ f'.tenant = f.tenant ∧ f'.isFolder = f.isFolder
  blob : ∀ k b, row BlobRow.id s.blobs k = some b → ∃ b',
    row BlobRow.id s'.blobs k = some b' ∧ b'.tenant = b.tenant

theorem inv_rewrites (hinv : Inv s) (h : Rewrites s s') : Inv s' where
  nodup := by
    rw [h.tree]
    exact hinv.nodup
  file := by
    intro k r hr
    rw [h.tree] at hr
    obtain ⟨f, hf, hten⟩ := hinv.file k r hr
    obtain ⟨f', hf', hten', -⟩ := h.kept k f hf
    exact ⟨f', hf', hten'.trans hten⟩
  entry := by
    intro k f' hf'
    obtain ⟨f, hf, hten, -⟩ := h.file k f' hf'
    obtain ⟨r, hr, hten'⟩ := hinv.entry k f hf
    rw [h.tree]
    exact ⟨r, hr, hten'.trans hten.symm⟩
  blob := by
    intro k f' hf' hfile
    obtain ⟨f, hf, hten, hkind, hblob⟩ := h.file k f' hf'
    rw [hkind] at hfile
    obtain ⟨b, hb, hbten⟩ := hinv.blob k f hf hfile
    obtain ⟨b', hb', hten'⟩ := h.blob _ b hb
    rw [hblob hfile]
    exact ⟨b', hb', hten'.trans (hbten.trans hten.symm)⟩
  owner := by
    intro k k' f' g' hf' hg' hfile hfile' heq
    obtain ⟨f, hf, -, hkind, hblob⟩ := h.file k f' hf'
    obtain ⟨g, hg, -, hkind', hblob'⟩ := h.file k' g' hg'
    rw [hkind] at hfile
    rw [hkind'] at hfile'
    rw [hblob hfile, hblob' hfile'] at heq
    exact hinv.owner k k' f g hf hg hfile hfile' heq
  parent := by
    intro k r hr
    rw [h.tree] at hr
    rcases hinv.parent k r hr with hroot | ⟨p, hp, hten, hfolder⟩
    · exact .inl hroot
    · obtain ⟨p', hp', hten', hkind⟩ := h.kept _ p hp
      exact .inr ⟨p', hp', hten'.trans hten, hkind.trans hfolder⟩
  name := by
    rw [h.tree]
    exact hinv.name
  unique := by
    rw [h.tree]
    exact hinv.unique
  level := by
    have hsame : s'.getEntry = s.getEntry := by
      funext t k
      unfold Store.getEntry
      rw [h.tree]
    rw [h.tree, hsame]
    exact hinv.level

/-- An item without children is gone, and its content with it. -/
structure Removes (s s' : Store) (id : String) (f : FileRow) : Prop where
  was : row FileRow.id s.files id = some f
  nodup : (s.tree.map TreeRow.id).Nodup → (s'.tree.map TreeRow.id).Nodup
  files : ∀ k, row FileRow.id s'.files k =
    if k = id then none else row FileRow.id s.files k
  tree : ∀ k, row TreeRow.id s'.tree k =
    if k = id then none else row TreeRow.id s.tree k
  blob : ∀ k b, row BlobRow.id s.blobs k = some b → (f.isFolder = false → k ≠ f.blobsID) →
    row BlobRow.id s'.blobs k = some b
  childless : ∀ k r, k ≠ id → row TreeRow.id s.tree k = some r → r.parentID = id →
    r.parentID = ""

/-- No other item is below one without children. -/
theorem not_above_of_childless {e : Entries} {x : String}
    (hchildless : ∀ k r, k ≠ id → e k = some r → r.parentID = id → r.parentID = "")
    (hacyclic : ¬ Relation.TransGen (Up e) id id) (hx : x ≠ id) :
    ¬ Relation.ReflTransGen (Up e) x id := by
  intro hup
  rcases hup.cases_tail with heq | ⟨y, -, r, hr, hpar, hne⟩
  · exact hx heq.symm
  by_cases hy : y = id
  · subst hy
    exact hacyclic (.single ⟨r, hr, hpar, hne⟩)
  have hroot := hchildless y r hy hr hpar
  rw [hpar] at hroot
  exact hne hroot

theorem inv_removes (hinv : Inv s) (h : Removes s s' id f) : Inv s' where
  nodup := h.nodup hinv.nodup
  file := by
    intro k r hr
    obtain ⟨hk, hr⟩ := Table.of_drop h.tree hr
    obtain ⟨g, hg, hten⟩ := hinv.file k r hr
    exact ⟨g, by rw [h.files, if_neg hk]; exact hg, hten⟩
  entry := by
    intro k g hg
    obtain ⟨hk, hg⟩ := Table.of_drop h.files hg
    obtain ⟨r, hr, hten⟩ := hinv.entry k g hg
    exact ⟨r, by rw [h.tree, if_neg hk]; exact hr, hten⟩
  blob := by
    intro k g hg hfile
    obtain ⟨hk, hg⟩ := Table.of_drop h.files hg
    obtain ⟨b, hb, hten⟩ := hinv.blob k g hg hfile
    refine ⟨b, h.blob _ b hb ?_, hten⟩
    intro hf heq
    exact hk (hinv.owner k id g f hg h.was hfile hf heq)
  owner := by
    intro k k' g g' hg hg'
    exact hinv.owner k k' g g' (Table.of_drop h.files hg).2 (Table.of_drop h.files hg').2
  parent := by
    intro k r hr
    obtain ⟨hk, hr⟩ := Table.of_drop h.tree hr
    rcases hinv.parent k r hr with hroot | ⟨p, hp, hrest⟩
    · exact .inl hroot
    by_cases hpar : r.parentID = id
    · exact .inl (h.childless k r hk hr hpar)
    · exact .inr ⟨p, by rw [h.files, if_neg hpar]; exact hp, hrest⟩
  name := fun k r hr => hinv.name k r (Table.of_drop h.tree hr).2
  unique := by
    intro k k' r r' hr hr'
    exact hinv.unique k k' r r' (Table.of_drop h.tree hr).2 (Table.of_drop h.tree hr').2
  level := by
    intro k r hr
    obtain ⟨hk, hr⟩ := Table.of_drop h.tree hr
    obtain ⟨names, hchain, hlen⟩ := hinv.level k r hr
    refine ⟨names, chain_avoid (x := id) ?_ ?_ hchain, hlen⟩
    · intro y hy
      unfold Store.getEntry
      rw [h.tree, if_neg hy]
    · refine not_above_of_childless ?_ ?_ hk
      · intro y g hy hg hpar
        exact h.childless y g hy (getEntry_iff.mp hg).1 hpar
      · exact inv_acyclic hinv r.tenant id

end

end Contenox.Vfs
