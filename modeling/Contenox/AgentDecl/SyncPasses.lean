/-
# What a pass leaves behind

Written out, a pass does three things to the generated directory: it puts the files of the sources
it kept there, takes away the files of the sources it retired, and writes its own state.  Every
write it skips would have changed nothing, so the skipped ones need no case of their own
(`syncSources_ok`).

The order matters where the two sets of names meet.  A source that was moved is kept under its new
path and retired under the old one, and both have the files of the same agent: the pass writes them
and then removes them (`moved_source_loses_chain`).  `Separate` says that this does not happen, and
that two sources which write the same file agree on it; then and only then is every kept source's
work in the directory after the pass (`sync_in_step`).
-/
import Contenox.AgentDecl.Sync

namespace Contenox.AgentDecl

open Lib
open Lib.Outcome (ok_of_bind ok_of_map)

/-! ## 1. Directories -/

section

variable {β : Type} {files : List (String × β)}

/-- Some files put into a directory, one after the other. -/
def Dir.putAll (dir : Dir β) (files : List (String × β)) : Dir β :=
  files.foldl (fun d e => d.put e.1 e.2) dir

/-- Some files taken out of a directory. -/
def Dir.without (dir : Dir β) (names : List String) : Dir β :=
  fun n => if n ∈ names then none else dir n

variable {dir : Dir β}

theorem put_eq_self {name : String} {content : β} (h : dir name = some content) :
    dir.put name content = dir := by
  funext n
  unfold Dir.put
  split
  · rename_i hn
    rw [hn, h]
  · rfl

theorem putAll_eq_self (h : ∀ e ∈ files, dir e.1 = some e.2) : dir.putAll files = dir := by
  induction files with
  | nil => rfl
  | cons e rest ih =>
    have hput : dir.put e.1 e.2 = dir := put_eq_self (h e List.mem_cons_self)
    unfold Dir.putAll at ih ⊢
    rw [List.foldl_cons, hput]
    exact ih fun e' he' => h e' (List.mem_cons_of_mem _ he')

/-- Files that agree where they have one name are all there. -/
theorem putAll_of_mem (hagree : ∀ e ∈ files, ∀ e' ∈ files, e.1 = e'.1 → e.2 = e'.2) {e : String × β}
    (he : e ∈ files) (dir : Dir β) : dir.putAll files e.1 = some e.2 := by
  induction files using List.reverseRecOn with
  | nil => cases he
  | append_singleton rest a ih =>
    rw [Dir.putAll, List.foldl_concat, Dir.put]
    -- the last file of the name decides
    split
    · next hname => rw [hagree a (by simp) e he hname.symm]
    next hname =>
    have hrest : e ∈ rest := (List.mem_append.mp he).resolve_right fun h =>
      hname (congrArg Prod.fst (List.mem_singleton.mp h))
    exact ih (fun e he e' he' => hagree e (List.mem_append_left _ he) e'
      (List.mem_append_left _ he')) hrest

theorem retire_eq_without {disk : Disk β} (hremoves : ∀ f, disk.removes f = true) (dir : Dir β)
    (records : List SyncRecord) :
    retire disk dir records = dir.without (records.flatMap SyncRecord.files) := by
  unfold retire
  generalize records.flatMap SyncRecord.files = names
  induction names generalizing dir with
  | nil =>
    funext n
    simp [Dir.without]
  | cons f rest ih =>
    rw [List.foldl_cons, ih, removeFile, if_pos (hremoves f)]
    funext n
    by_cases hn : n = f <;> simp [Dir.without, hn]

end

/-! ## 2. What a pass keeps -/

section

variable {γ β : Type} {disk : Disk β} {c : Compiler γ β} {cfg : Config}
  {sources : List Source} {src : Source} {b : Built β} {dir dir' : Dir β}
  {state : List (String × SyncRecord)} {p p' : Pass β} {results : List SyncResult}
  {k : Source × Built β}

/-- The files of a compiled source. -/
def Built.files (b : Built β) : List (String × β) :=
  (b.record.chainFile, b.chainJSON) ::
    if b.record.policyFile = "" then [] else [(b.record.policyFile, b.policyJSON)]

theorem map_fst_files (b : Built β) : b.files.map Prod.fst = b.record.files := by
  unfold Built.files SyncRecord.files
  split <;> rfl

/-- The files of a compiled source are in the directory. -/
def Built.Present (b : Built β) (dir : Dir β) : Prop := ∀ e ∈ b.files, dir e.1 = some e.2

/-- The source, if it compiles. -/
def keptSource (c : Compiler γ β) (cfg : Config) (src : Source) : Option (Source × Built β) :=
  match compileSource c cfg src with
  | .built b => some (src, b)
  | _ => none

/-- The sources that compile. -/
def kept (c : Compiler γ β) (cfg : Config) (sources : List Source) : List (Source × Built β) :=
  sources.filterMap (keptSource c cfg)

/-- The entry of a kept source in the next state. -/
def entryOf (k : Source × Built β) : String × SyncRecord := (k.1.path, k.2.record)

def WriteAction.keeps : WriteAction → Bool
  | .created | .updated | .unchanged => true
  | .refused | .ignored => false

theorem mem_kept :
    (src, b) ∈ kept c cfg sources ↔ src ∈ sources ∧ compileSource c cfg src = .built b := by
  unfold kept
  rw [List.mem_filterMap]
  constructor
  · rintro ⟨src', hmem, hkept⟩
    unfold keptSource at hkept
    split at hkept
    · cases hkept
      exact ⟨hmem, ‹_›⟩
    · cases hkept
  · rintro ⟨hmem, hbuilt⟩
    exact ⟨src, hmem, by rw [keptSource, hbuilt]⟩

theorem kept_built (h : compileSource c cfg src = .built b) :
    kept c cfg (src :: sources) = (src, b) :: kept c cfg sources :=
  List.filterMap_cons_some (by rw [keptSource, h])

theorem kept_refused {name reason : String} (h : compileSource c cfg src = .refused name reason) :
    kept c cfg (src :: sources) = kept c cfg sources :=
  List.filterMap_cons_none (by rw [keptSource, h])

theorem writeFile_ok {what name : String} {content : β}
    (h : writeFile disk dir what name content = .ok dir') :
    disk.writeError name = none ∧ dir' = dir.put name content := by
  unfold writeFile at h
  split at h
  · cases h
  · cases h
    exact ⟨‹_›, rfl⟩

variable [DecidableEq β]

/-- Whether it writes or not, a pass puts the files of a kept source into the directory. -/
theorem store_ok (h : store disk state p src b = .ok p') :
    p'.dir = p.dir.putAll b.files ∧ p'.next = (src.path, b.record) :: p.next ∧
      ∃ action, action.keeps = true ∧
        p'.results = p.results ++ [⟨src.path, b.name, action, ""⟩] := by
  unfold store at h
  split at h
  · rename_i hsame
    cases h
    refine ⟨(putAll_eq_self ?_).symm, rfl, .unchanged, rfl, rfl⟩
    intro e he
    rcases List.mem_cons.mp he with rfl | he
    · simpa [fileHas] using hsame.2.1
    split at he
    · cases he
    rename_i hpolicy
    rw [List.mem_singleton.mp he]
    simpa [fileHas] using hsame.2.2.resolve_left hpolicy
  · obtain ⟨dir₁, hchain, h⟩ := ok_of_bind h
    obtain ⟨dir₂, hpolicy, h⟩ := ok_of_bind h
    cases h
    obtain ⟨-, rfl⟩ := writeFile_ok hchain
    refine ⟨?_, rfl, _, ?_, rfl⟩
    · unfold Built.files
      split at hpolicy
      · rename_i hempty
        cases hpolicy
        rw [if_pos hempty]
        rfl
      · rename_i hfile
        obtain ⟨-, rfl⟩ := writeFile_ok hpolicy
        rw [if_neg hfile]
        rfl
    · split <;> rfl

theorem syncSource_ok (h : syncSource disk c cfg state p src = .ok p') :
    (∃ b, compileSource c cfg src = .built b ∧ store disk state p src b = .ok p') ∨
    ∃ name reason, compileSource c cfg src = .refused name reason ∧
      p' = { p with results := p.results ++ [⟨src.path, name, .refused, reason⟩] } := by
  unfold syncSource at h
  split at h
  · rename_i name reason hrefused
    cases h
    exact .inr ⟨name, reason, hrefused, rfl⟩
  · cases h
  · rename_i b hbuilt
    exact .inl ⟨b, hbuilt, h⟩

/-- The loop: the files of all kept sources are put into the directory, each is recorded and
reported. -/
theorem syncSources_ok (h : syncSources disk c cfg state p sources = .ok p') :
    p'.dir = p.dir.putAll ((kept c cfg sources).flatMap fun k => k.2.files) ∧
    p'.next = ((kept c cfg sources).map entryOf).reverse ++ p.next ∧
    (p'.results.filter (·.action.keeps)).map SyncResult.source =
      (p.results.filter (·.action.keeps)).map SyncResult.source ++
        (kept c cfg sources).map (·.1.path) := by
  induction sources generalizing p with
  | nil =>
    cases h
    exact ⟨rfl, rfl, (List.append_nil _).symm⟩
  | cons src rest ih =>
    obtain ⟨p₁, hsource, hrest⟩ := ok_of_bind h
    obtain ⟨hdir, hnext, hresults⟩ := ih hrest
    rcases syncSource_ok hsource with ⟨b, hbuilt, hstore⟩ | ⟨name, reason, hrefused, rfl⟩
    · obtain ⟨hdir₁, hnext₁, action, hkeeps, hresults₁⟩ := store_ok hstore
      rw [kept_built hbuilt]
      refine ⟨?_, ?_, ?_⟩
      · rw [hdir, hdir₁, Dir.putAll, Dir.putAll, Dir.putAll, ← List.foldl_append, List.flatMap_cons]
      · rw [hnext, hnext₁]
        simp [entryOf]
      · rw [hresults, hresults₁]
        simp [hkeeps]
    · rw [kept_refused hrefused]
      refine ⟨hdir, hnext, ?_⟩
      rw [hresults]
      simp [WriteAction.keeps]

/-! ## 3. The directory after a pass -/

/-- The state that a pass leaves. -/
def nextState (c : Compiler γ β) (cfg : Config) (sources : List Source) :
    List (String × SyncRecord) :=
  ((kept c cfg sources).map entryOf).reverse

/-- The names that a pass removes. -/
def retiredFiles (disk : Disk β) (c : Compiler γ β) (cfg : Config) (sources : List Source)
    (dir : Dir β) : List String :=
  (retired (readSyncState disk dir) (nextState c cfg sources)).flatMap SyncRecord.files

/-- What the pass makes of the directory before it writes its state. -/
def settled (disk : Disk β) (c : Compiler γ β) (cfg : Config) (sources : List Source)
    (dir : Dir β) : Dir β :=
  (dir.putAll ((kept c cfg sources).flatMap fun k => k.2.files)).without
    (retiredFiles disk c cfg sources dir)

variable {path : String} {r : SyncRecord}

omit [DecidableEq β] in
theorem mem_nextState : (path, r) ∈ nextState c cfg sources ↔
      ∃ src b, (src, b) ∈ kept c cfg sources ∧ src.path = path ∧ b.record = r := by
  simp [nextState, entryOf]

/-- A pass that ends without an error: its reports, and the directory it leaves.  Only a pass
without sources and without a state writes no state. -/
theorem syncCollected_ok (hremoves : ∀ f, disk.removes f = true)
    (h : syncCollected disk c cfg sources dir = .ok (results, dir')) :
    (results.filter (·.action.keeps)).map SyncResult.source = (kept c cfg sources).map (·.1.path) ∧
    (dir' = (settled disk c cfg sources dir).put syncStateFilename
        (disk.encode (nextState c cfg sources)) ∧ disk.writeError syncStateFilename = none ∨
      sources = [] ∧ readSyncState disk dir = [] ∧ dir' = dir) := by
  unfold syncCollected at h
  cases sources with
  | nil =>
    obtain ⟨d, hretire, heq⟩ := ok_of_map h
    cases heq
    refine ⟨rfl, ?_⟩
    unfold retireAll at hretire
    have hnone : retired (readSyncState disk dir) (nextState c cfg []) =
        (readSyncState disk dir).map Prod.snd := by
      have hall : (readSyncState disk dir).filter
          (fun e => ((nextState c cfg []).lookup e.1).isNone) = readSyncState disk dir :=
        List.filter_eq_self.mpr fun _ _ => rfl
      rw [retired, hall]
    dsimp only at hretire
    split at hretire
    · rename_i hstate
      cases hretire
      rw [hstate]
      exact .inr ⟨rfl, rfl, rfl⟩
    · obtain ⟨hwrite, rfl⟩ := writeFile_ok hretire
      refine .inl ⟨?_, hwrite⟩
      rw [settled, retiredFiles, hnone, retire_eq_without hremoves]
      rfl
  | cons src rest =>
    rw [if_neg (by simp)] at h
    split at h
    · cases h
    obtain ⟨p, hloop, h⟩ := ok_of_bind h
    obtain ⟨d, hstate, h⟩ := ok_of_bind h
    cases h
    obtain ⟨hdir, hnext, hresults⟩ := syncSources_ok hloop
    rw [List.append_nil] at hnext
    obtain ⟨hwrite, rfl⟩ := writeFile_ok hstate
    refine ⟨?_, .inl ⟨?_, hwrite⟩⟩
    · have hunknown : ((unknownAgents c cfg (src :: rest)).filter (·.action.keeps)) = [] := by
        rw [List.filter_eq_nil_iff]
        intro r hr
        obtain ⟨name, -, rfl⟩ := List.mem_map.mp hr
        exact Bool.false_ne_true
      rw [List.filter_append, hunknown, List.append_nil, hresults]
      rfl
    · rw [settled, retiredFiles, retire_eq_without hremoves, hdir, hnext]
      rfl

/-! ## 4. Files that do not meet -/

/-- The condition on the names: sources that write one file agree on it, and no retired source has
a file of a kept one. -/
structure Separate (disk : Disk β) (c : Compiler γ β) (cfg : Config) (sources : List Source)
    (dir : Dir β) : Prop where
  agree : ∀ k ∈ kept c cfg sources, ∀ k' ∈ kept c cfg sources, ∀ e ∈ k.2.files,
    ∀ e' ∈ k'.2.files, e.1 = e'.1 → e.2 = e'.2
  apart : ∀ k ∈ kept c cfg sources, ∀ e ∈ k.2.files,
    e.1 ∉ retiredFiles disk c cfg sources dir

omit [DecidableEq β] in
theorem record_of_built (h : compileSource c cfg src = .built b) :
    ∃ sha256 id, b.record = recordFor cfg src sha256 id := by
  unfold compileSource at h
  iterate 6
    split at h
    · cases h
  · cases h
  · cases h
    exact ⟨_, _, rfl⟩

omit [DecidableEq β] in
/-- A generated file is never the state file. -/
theorem ne_syncStateFilename (hk : k ∈ kept c cfg sources) {e : String × β} (he : e ∈ k.2.files) :
    e.1 ≠ syncStateFilename := by
  obtain ⟨sha256, id, hrecord⟩ := record_of_built (mem_kept.mp hk).2
  have hname : e.1 ∈ k.2.record.files := by
    rw [← map_fst_files]
    exact List.mem_map_of_mem he
  -- the names differ in their first letter
  intro heq
  have hhead : e.1.toList.head? = some '.' := by
    rw [heq]
    rfl
  rw [hrecord] at hname
  unfold SyncRecord.files recordFor at hname
  rcases List.mem_cons.mp hname with hchain | hpolicy
  · rw [hchain] at hhead
    simp [chainFileFor] at hhead
  split at hpolicy
  · cases hpolicy
  rename_i hset
  dsimp only at hset hpolicy
  split at hset
  · exact hset rfl
  rename_i hfree
  rw [List.mem_singleton, if_neg hfree] at hpolicy
  rw [hpolicy] at hhead
  simp [policyFileFor] at hhead

omit [DecidableEq β] in
theorem settled_of_mem (hsep : Separate disk c cfg sources dir) (hk : k ∈ kept c cfg sources)
    {e : String × β} (he : e ∈ k.2.files) : settled disk c cfg sources dir e.1 = some e.2 := by
  have hmem : e ∈ (kept c cfg sources).flatMap fun k => k.2.files :=
    List.mem_flatMap.mpr ⟨k, hk, he⟩
  have hput := putAll_of_mem (fun e he e' he' => by
    obtain ⟨k, hk, he⟩ := List.mem_flatMap.mp he
    obtain ⟨k', hk', he'⟩ := List.mem_flatMap.mp he'
    exact hsep.agree k hk k' hk' e he e' he') hmem dir
  rw [settled, Dir.without, if_neg (hsep.apart k hk e he), hput]

/-- Every kept source's work is in the directory after a pass exactly when the names do not meet. -/
theorem present_iff_separate (hremoves : ∀ f, disk.removes f = true)
    (h : syncCollected disk c cfg sources dir = .ok (results, dir')) :
    (∀ k ∈ kept c cfg sources, k.2.Present dir') ↔ Separate disk c cfg sources dir := by
  rcases (syncCollected_ok hremoves h).2 with ⟨rfl, -⟩ | ⟨rfl, -, -⟩
  · have hfile : ∀ k ∈ kept c cfg sources, ∀ e ∈ k.2.files,
        (settled disk c cfg sources dir).put syncStateFilename
          (disk.encode (nextState c cfg sources)) e.1 = settled disk c cfg sources dir e.1 :=
      fun k hk e he => if_neg (ne_syncStateFilename hk he)
    constructor
    · intro hpresent
      have hsettled : ∀ k ∈ kept c cfg sources, ∀ e ∈ k.2.files,
          settled disk c cfg sources dir e.1 = some e.2 :=
        fun k hk e he => (hfile k hk e he).symm.trans (hpresent k hk e he)
      constructor
      · intro k hk k' hk' e he e' he' hname
        have h₁ := hsettled k hk e he
        rw [hname, hsettled k' hk' e' he'] at h₁
        exact (Option.some.inj h₁).symm
      · intro k hk e he hmem
        have h₁ := hsettled k hk e he
        rw [settled, Dir.without, if_pos hmem] at h₁
        cases h₁
    · intro hsep k hk e he
      rw [hfile k hk e he, settled_of_mem hsep hk he]
  · exact iff_of_true (nofun) ⟨fun k hk => (nomatch hk), fun k hk => (nomatch hk)⟩

/-! ## 5. The pass after -/

/-- A source whose files are there and whose path is recorded is left alone. -/
theorem store_present
    (hstate : (state.lookup src.path).isSome = true) (hpresent : b.Present p.dir) :
    store disk state p src b = .ok
      { dir := p.dir
        next := (src.path, b.record) :: p.next
        results := p.results ++ [⟨src.path, b.name, .unchanged, ""⟩] } := by
  unfold store
  rw [if_pos]
  refine ⟨hstate, ?_, ?_⟩
  · exact decide_eq_true (hpresent _ List.mem_cons_self)
  by_cases hpolicy : b.record.policyFile = ""
  · exact .inl hpolicy
  refine .inr (decide_eq_true (hpresent (b.record.policyFile, b.policyJSON) ?_))
  unfold Built.files
  rw [if_neg hpolicy]
  simp

/-- A loop over sources that are all in place changes no file. -/
theorem syncSources_present (hnofail : ∀ src ∈ sources, ∀ e, compileSource c cfg src ≠ .failed e)
    (hplace : ∀ k ∈ kept c cfg sources, (state.lookup k.1.path).isSome = true ∧ k.2.Present dir)
    (next : List (String × SyncRecord)) (results : List SyncResult) :
    ∃ results', syncSources disk c cfg state ⟨dir, next, results⟩ sources =
      .ok ⟨dir, nextState c cfg sources ++ next, results'⟩ := by
  induction sources generalizing next results with
  | nil => exact ⟨results, rfl⟩
  | cons src rest ih =>
    have hrest := ih (fun s hs => hnofail s (List.mem_cons_of_mem _ hs))
    cases hcompile : compileSource c cfg src with
    | failed e => exact absurd hcompile (hnofail src List.mem_cons_self e)
    | refused name reason =>
      rw [kept_refused hcompile] at hplace
      obtain ⟨results', hloop⟩ := hrest hplace next
        (results ++ [⟨src.path, name, .refused, reason⟩])
      refine ⟨results', ?_⟩
      rw [syncSources, syncSource, hcompile, nextState, kept_refused hcompile]
      exact hloop
    | built b =>
      rw [kept_built hcompile] at hplace
      obtain ⟨hstate, hpresent⟩ := hplace (src, b) List.mem_cons_self
      obtain ⟨results', hloop⟩ := hrest (fun k hk => hplace k (List.mem_cons_of_mem _ hk))
        ((src.path, b.record) :: next) (results ++ [⟨src.path, b.name, .unchanged, ""⟩])
      refine ⟨results', ?_⟩
      have hstore : store disk state ⟨dir, next, results⟩ src b = .ok
          ⟨dir, (src.path, b.record) :: next, results ++ [⟨src.path, b.name, .unchanged, ""⟩]⟩ :=
        store_present hstate hpresent
      rw [syncSources, syncSource, hcompile]
      dsimp only
      rw [hstore]
      refine hloop.trans ?_
      rw [nextState, nextState, kept_built hcompile]
      simp [entryOf]

theorem not_failed_of_syncSources (h : syncSources disk c cfg state p sources = .ok p') :
    ∀ src ∈ sources, ∀ e, compileSource c cfg src ≠ .failed e := by
  induction sources generalizing p with
  | nil =>
    intro src hsrc
    cases hsrc
  | cons src rest ih =>
    obtain ⟨p₁, hsource, hrest⟩ := ok_of_bind h
    intro s hs e hfailed
    rcases List.mem_cons.mp hs with rfl | hs
    · rcases syncSource_ok hsource with ⟨b, hbuilt, -⟩ | ⟨name, reason, hrefused, -⟩
      · rw [hfailed] at hbuilt
        cases hbuilt
      · rw [hfailed] at hrefused
        cases hrefused
    · exact ih hrest s hs e hfailed

omit [DecidableEq β] in
theorem lookup_nextState
    (hk : k ∈ kept c cfg sources) : ((nextState c cfg sources).lookup k.1.path).isSome = true := by
  rw [Option.isSome_iff_ne_none]
  intro hnone
  have hmem : (k.1.path, k.2.record) ∈ nextState c cfg sources :=
    mem_nextState.mpr ⟨k.1, k.2, hk, rfl, rfl⟩
  have hne := List.lookup_eq_none_iff.mp hnone _ hmem
  simp at hne

omit [DecidableEq β] in
/-- Where the sync state reads back, a state that was just written retires nothing. -/
theorem retired_written (hcodec : ∀ m k, (disk.decode (disk.encode m)).lookup k = m.lookup k)
    (m : List (String × SyncRecord)) : retired (disk.decode (disk.encode m)) m = [] := by
  rw [retired, List.map_eq_nil_iff, List.filter_eq_nil_iff]
  rintro ⟨path, r⟩ hmem
  rw [← hcodec, Bool.not_eq_true, Option.isNone_eq_false_iff, Option.isSome_iff_ne_none]
  intro hnone
  have hne := List.lookup_eq_none_iff.mp hnone _ hmem
  simp at hne

/-- A second pass on the same inputs goes through and changes no file. -/
theorem syncCollected_again (hremoves : ∀ f, disk.removes f = true)
    (hcodec : ∀ m k, (disk.decode (disk.encode m)).lookup k = m.lookup k)
    (h : syncCollected disk c cfg sources dir = .ok (results, dir'))
    (hsep : Separate disk c cfg sources dir) :
    ∃ results', syncCollected disk c cfg sources dir' = .ok (results', dir') := by
  have hpresent := (present_iff_separate hremoves h).mpr hsep
  rcases (syncCollected_ok hremoves h).2 with ⟨hdir', hwrite⟩ | ⟨-, -, rfl⟩
  · have hread : readSyncState disk dir' = disk.decode (disk.encode (nextState c cfg sources)) := by
      rw [hdir', readSyncState, Dir.put, if_pos rfl]
    have hstate : dir' syncStateFilename = some (disk.encode (nextState c cfg sources)) := by
      rw [hdir', Dir.put, if_pos rfl]
    cases sources with
    | nil =>
      -- the state that was written is empty
      have hempty : readSyncState disk dir' = [] := by
        have hnone := retired_written hcodec (nextState c cfg [])
        rw [retired, List.map_eq_nil_iff, List.filter_eq_nil_iff] at hnone
        rw [hread, List.eq_nil_iff_forall_not_mem]
        intro e he
        exact hnone e he rfl
      refine ⟨[], ?_⟩
      rw [syncCollected, if_pos List.isEmpty_nil, retireAll, hempty]
      rfl
    | cons src rest =>
      unfold syncCollected at h
      rw [if_neg (by simp)] at h
      split at h
      · cases h
      rename_i hmkdir
      obtain ⟨p, hloop, -⟩ := ok_of_bind h
      have hplace : ∀ k ∈ kept c cfg (src :: rest),
          ((readSyncState disk dir').lookup k.1.path).isSome = true ∧ k.2.Present dir' := by
        intro k hk
        rw [hread, hcodec]
        exact ⟨lookup_nextState hk, hpresent k hk⟩
      obtain ⟨results', hagain⟩ : ∃ results', syncSources disk c cfg (readSyncState disk dir')
          ⟨dir', [], []⟩ (src :: rest) =
            .ok ⟨dir', nextState c cfg (src :: rest) ++ [], results'⟩ :=
        syncSources_present (not_failed_of_syncSources hloop) hplace [] []
      refine ⟨results' ++ unknownAgents c cfg (src :: rest), ?_⟩
      rw [syncCollected, if_neg (by simp), hmkdir]
      dsimp only
      rw [hagain]
      dsimp only [Except.bind, bind]
      rw [List.append_nil, hread, retired_written hcodec]
      have hsame : writeSyncState disk (retire disk dir' [])
          (nextState c cfg (src :: rest)) = .ok dir' := by
        rw [writeSyncState, writeFile, hwrite]
        exact congrArg Except.ok (put_eq_self hstate)
      rw [hsame]
      rfl
  · exact ⟨results, h⟩

/-- The files of a source that the last pass recorded and this one did not keep are gone. -/
theorem retired_gone (hremoves : ∀ f, disk.removes f = true)
    (h : syncCollected disk c cfg sources dir = .ok (results, dir'))
    (hr : (path, r) ∈ readSyncState disk dir) (hgone : ∀ k ∈ kept c cfg sources, k.1.path ≠ path)
    {f : String} (hf : f ∈ r.files) (hne : f ≠ syncStateFilename) : dir' f = none := by
  rcases (syncCollected_ok hremoves h).2 with ⟨rfl, -⟩ | ⟨-, hstate, -⟩
  · have hnone : (nextState c cfg sources).lookup path = none := by
      refine List.lookup_eq_none_iff.mpr ?_
      rintro ⟨path', r'⟩ hmem
      obtain ⟨src, b, hk, rfl, -⟩ := mem_nextState.mp hmem
      have hdiff := hgone (src, b) hk
      simpa using hdiff.symm
    have hmem : f ∈ retiredFiles disk c cfg sources dir := by
      refine List.mem_flatMap.mpr ⟨r, List.mem_map.mpr ⟨(path, r), ?_, rfl⟩, hf⟩
      exact List.mem_filter.mpr ⟨hr, by rw [hnone]; rfl⟩
    rw [Dir.put, if_neg hne, settled, Dir.without, if_pos hmem]
  · rw [hstate] at hr
    cases hr

/-- **A pass and the pass after it.**  The sources reported as kept are those that compile.  All
their files are in the directory exactly when the names do not meet; the files of retired sources
are gone; and where the names do not meet, a second pass changes nothing. -/
theorem sync_in_step (hremoves : ∀ f, disk.removes f = true)
    (hcodec : ∀ m k, (disk.decode (disk.encode m)).lookup k = m.lookup k)
    {dirs : List SourceDir} {dir dir' : Dir β} {results : List SyncResult}
    (h : sync disk c cfg dirs dir = .ok (results, dir')) :
    ∃ sources, collectSources dirs = .ok sources ∧
      (results.filter (·.action.keeps)).map SyncResult.source =
        (kept c cfg sources).map (·.1.path) ∧
      ((∀ k ∈ kept c cfg sources, k.2.Present dir') ↔ Separate disk c cfg sources dir) ∧
      (∀ path r, (path, r) ∈ readSyncState disk dir → (∀ k ∈ kept c cfg sources, k.1.path ≠ path) →
        ∀ f ∈ r.files, f ≠ syncStateFilename → dir' f = none) ∧
      (Separate disk c cfg sources dir →
        ∃ results', sync disk c cfg dirs dir' = .ok (results', dir')) := by
  unfold sync at h
  split at h
  · cases h
  rename_i hvalid
  split at h
  · cases h
  rename_i sources hsources
  refine ⟨sources, hsources, (syncCollected_ok hremoves h).1,
    present_iff_separate hremoves h, ?_, ?_⟩
  · intro path r hr hgone f hf hne
    exact retired_gone hremoves h hr hgone hf hne
  intro hsep
  obtain ⟨results', hagain⟩ := syncCollected_again hremoves hcodec h hsep
  refine ⟨results', ?_⟩
  rw [sync, hvalid]
  rw [hsources]
  exact hagain

end

/-! ## 6. A source that moves -/

/-- A file's content: a document, or the sync state. -/
abbrev Content := String ⊕ List (String × SyncRecord)

def plainDisk : Disk Content where
  key := ".generated"
  mkdirAll := none
  writeError _ := none
  removes _ := true
  encode := Sum.inr
  decode := Sum.elim (fun _ => []) id

/-- A declaration is a file that holds the name of its agent. -/
def namesAgent : Entry → Except String Parsed
  | .file _ data => .ok ⟨data, data, ⟨data, "claude", .readOnly, false, none⟩⟩
  | .dir _ _ => .error "not a file"

def plainCompiler : Compiler String Content where
  tx := ⟨fun s => "\"" ++ s ++ "\"", fun _ => none, fun d => toString d⟩
  toml := ⟨fun _ => .error "no section", fun _ cfg => .ok cfg⟩
  parse src := namesAgent src.entry
  emitChain _ p _ := .ok p.name
  chainID := id
  marshalChain name := .ok (.inl ("chain of " ++ name))
  marshalPolicy _ := .ok (.inl "policy")

def plainConfig : Config where
  chain := ⟨0, 10, 2⟩
  policy :=
    { defaultAction := "approve", compute := ⟨0, 0, "", 0, [], []⟩
      attention := ⟨false, 0, false, 0⟩, alwaysDeny := [], alwaysAllow := [], postures := [] }
  envelopes := [("read_only", []), ("ask_always", []), ("auto_edit", [])]
  agents := []

/-- A directory with the declaration of `scribe`. -/
def scribeDir (key : String) : SourceDir := ⟨key, true, .ok [.file "scribe.md" "scribe"]⟩

theorem sync_in_step_scribe : ∃ results dir' results',
    sync plainDisk plainCompiler plainConfig [scribeDir "a"] (fun _ => none) =
      .ok (results, dir') ∧
    results = [⟨"a/scribe.md", "scribe", .created, ""⟩] ∧
    dir' "chain-agent-scribe.json" = some (.inl "chain of scribe") ∧
    sync plainDisk plainCompiler plainConfig [scribeDir "a"] dir' = .ok (results', dir') := by
  have hpass : sync plainDisk plainCompiler plainConfig [scribeDir "a"] (fun _ => none) =
      .ok (_, _) := rfl
  obtain ⟨sources, hsources, -, hpresent, -, hagain⟩ :=
    sync_in_step (fun _ => rfl) (fun _ _ => rfl) hpass
  cases hsources
  have hsep := hpresent.mp fun k hk e he => by
    obtain rfl := List.mem_singleton.mp hk
    rcases List.mem_cons.mp he with rfl | he
    · rfl
    · obtain rfl := List.mem_singleton.mp he
      rfl
  obtain ⟨results', hsecond⟩ := hagain hsep
  exact ⟨_, _, results', hpass, rfl, rfl, hsecond⟩

/-- The declaration moves from one directory to another.  The second pass reports it as created, and
has removed its chain and its policy. -/
theorem moved_source_loses_chain : ∃ results dir₁ results' dir₂,
    sync plainDisk plainCompiler plainConfig [scribeDir "a"] (fun _ => none) = .ok (results, dir₁) ∧
    sync plainDisk plainCompiler plainConfig [scribeDir "b"] dir₁ = .ok (results', dir₂) ∧
    results' = [⟨"b/scribe.md", "scribe", .created, ""⟩] ∧
    dir₂ "chain-agent-scribe.json" = none ∧ dir₂ "hitl-policy-scribe.json" = none := by
  refine ⟨_, _, _, _, rfl, rfl, rfl, rfl, rfl⟩

end Contenox.AgentDecl
