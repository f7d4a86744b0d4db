/-
# The program a denylist looks at

`commandBasename` takes the last path element of the WHOLE command and then its first word.
For `/usr/bin/rm -r x` this is `rm`; for `rm -r /tmp/x` it is `x`, since the slash that counts
is the last one of the line.  Where the line can be read, the structural reading names `rm`
all the same; where it cannot (another shell kind, a line that does not parse, words given
apart from the command), nothing does.

`blacklist_matches` says when the first word is caught: the slashes that follow it are at the end
of the command, where path.Base drops them, or the line is read and a command of it has the name.
Where the line is not read and the name does not come again after the word, that is also the only
way.
-/
import Contenox.Policy.Reveal

namespace Contenox.Hitl

open Lib Shell GoStrings

/-! ## 1. The first word of a command -/

/-- Not white space. -/
def wordChar (c : Char) : Bool := !isSpace c

/-- What follows the first word. -/
def afterFirstWord (cmd : String) : List Char :=
  (cmd.toList.dropWhile isSpace).dropWhile wordChar

theorem head?_fieldsFrom (cur l : List Char) :
    (fieldsFrom cur l).head? =
      if cur ≠ [] then some (cur ++ l.takeWhile wordChar)
      else if l.dropWhile isSpace = [] then none
      else some ((l.dropWhile isSpace).takeWhile wordChar) := by
  induction l generalizing cur with
  | nil => by_cases hcur : cur = [] <;> simp [fieldsFrom, hcur]
  | cons c l ih =>
    unfold fieldsFrom
    by_cases hc : isSpace c = true
    · by_cases hcur : cur = []
      · simp [hc, hcur, ih]
      · simp [hc, hcur, wordChar]
    · simp [hc, ih, wordChar]

/-- `lead` is white space, `w` a word, and the word ends where `rest` begins. -/
structure Around (lead w rest : List Char) : Prop where
  lead : ∀ c ∈ lead, isSpace c = true
  word : ∀ c ∈ w, wordChar c = true
  ne : w ≠ []
  rest : rest.takeWhile wordChar = []

theorem Around.head?_fields {lead w rest : List Char} (h : Around lead w rest) {s : String}
    (hs : s.toList = lead ++ (w ++ rest)) : (fields s).head? = some (String.ofList w) := by
  have hstart : (w ++ rest).dropWhile isSpace = w ++ rest := by
    obtain ⟨c, w, rfl⟩ := List.exists_cons_of_ne_nil h.ne
    have hc := h.word c List.mem_cons_self
    exact List.dropWhile_cons_of_neg (by simpa [wordChar] using hc)
  rw [fields, List.head?_map, head?_fieldsFrom, hs,
    List.dropWhile_append_of_pos h.lead, hstart, List.takeWhile_append_of_pos h.word, h.rest]
  simp [h.ne]

theorem around_of_fields {cmd w : String} (h : (fields cmd).head? = some w) :
    ∃ lead, cmd.toList = lead ++ (w.toList ++ afterFirstWord cmd) ∧
      Around lead w.toList (afterFirstWord cmd) := by
  rw [fields, List.head?_map, head?_fieldsFrom] at h
  by_cases hne : cmd.toList.dropWhile isSpace = []
  · simp [hne] at h
  simp only [ne_eq, not_true_eq_false, if_false, hne, Option.map_some, Option.some.injEq] at h
  have hw : w.toList = (cmd.toList.dropWhile isSpace).takeWhile wordChar := by
    rw [← h, String.toList_ofList]
  refine ⟨cmd.toList.takeWhile isSpace, ?_, ?_, ?_, ?_, ?_⟩
  · rw [hw, afterFirstWord, List.takeWhile_append_dropWhile, List.takeWhile_append_dropWhile]
  · exact fun c hc => List.mem_takeWhile_imp hc
  · exact fun c hc => List.mem_takeWhile_imp (hw ▸ hc)
  · rw [hw]
    have hhead := List.head?_dropWhile_not isSpace cmd.toList
    obtain ⟨c, l, hl⟩ := List.exists_cons_of_ne_nil hne
    rw [hl] at hhead
    rw [hl, List.takeWhile_cons_of_pos (by simpa [wordChar] using hhead)]
    exact List.cons_ne_nil _ _
  · unfold afterFirstWord
    cases hl : (cmd.toList.dropWhile isSpace).dropWhile wordChar with
    | nil => rfl
    | cons c l =>
      have hhead := List.head?_dropWhile_not wordChar (cmd.toList.dropWhile isSpace)
      rw [hl] at hhead
      exact List.takeWhile_cons_of_neg (by simpa using hhead)

theorem infix_of_fields {s w : String} (h : (fields s).head? = some w) : w.toList <:+: s.toList := by
  obtain ⟨lead, hs, -⟩ := around_of_fields h
  exact ⟨lead, afterFirstWord s, by rw [hs, List.append_assoc]⟩

/-- `elem` is the last path element of `dir ++ elem ++ tail`, whose end is slashes. -/
structure LastElem (dir elem tail : List Char) : Prop where
  ne : elem ≠ []
  slash : '/' ∉ elem
  dir : dir.getLast? = none ∨ dir.getLast? = some '/'
  tail : ∀ c ∈ tail, c = '/'

variable {dir elem tail : List Char}

theorem LastElem.base (h : LastElem dir elem tail) {s : String}
    (hs : s.toList = dir ++ (elem ++ tail)) : base s = String.ofList elem := by
  have hempty : s ≠ "" := by
    rintro rfl
    exact h.ne (List.append_eq_nil_iff.1 (List.append_eq_nil_iff.1 hs.symm).2).1
  have hrev : ∀ c ∈ elem.reverse, c ≠ '/' := fun c hc hslash =>
    h.slash (hslash ▸ List.mem_reverse.1 hc)
  have htail : ∀ c ∈ tail.reverse, decide (c = '/') = true := fun c hc =>
    decide_eq_true (h.tail c (List.mem_reverse.1 hc))
  have hdrop : (elem.reverse ++ dir.reverse).dropWhile (· = '/') = elem.reverse ++ dir.reverse := by
    obtain ⟨c, l, hl⟩ := List.exists_cons_of_ne_nil (List.reverse_ne_nil_iff.2 h.ne)
    rw [hl, List.cons_append]
    exact List.dropWhile_cons_of_neg (by simpa using hrev c (hl ▸ List.mem_cons_self))
  have htake : dir.reverse.takeWhile (· ≠ '/') = [] := by
    cases hd : dir.reverse with
    | nil => rfl
    | cons c l =>
      have hc : dir.getLast? = some c := by rw [← List.head?_reverse, hd, List.head?_cons]
      have hslash : c = '/' := by simpa [hc] using h.dir
      exact List.takeWhile_cons_of_neg (by simpa using hslash)
  rw [GoStrings.base, if_neg hempty]
  rw [hs, List.reverse_append, List.reverse_append, List.append_assoc,
    List.dropWhile_append_of_pos htail, hdrop, List.takeWhile_append_of_pos (by simpa using hrev),
    htake, List.append_nil, if_neg (List.reverse_ne_nil_iff.2 h.ne), List.reverse_reverse]

/-- Text that does not end in a slash has a last path element. -/
theorem exists_lastElem {w : List Char} (hne : w ≠ []) (hend : w.getLast? ≠ some '/') :
    ∃ dir elem, w = dir ++ elem ∧ LastElem dir elem [] := by
  refine ⟨w.rdropWhile (· ≠ '/'), w.rtakeWhile (· ≠ '/'), ?_, ?_, ?_, ?_, by simp⟩
  · rw [List.rdropWhile_append_rtakeWhile]
  · rw [ne_eq, List.rtakeWhile_eq_nil_iff]
    intro h
    exact hend (by simpa [List.getLast?_eq_some_getLast hne] using h hne)
  · intro hm
    simpa using List.mem_rtakeWhile_imp hm
  · by_cases hd : w.rdropWhile (· ≠ '/') = []
    · exact .inl (by rw [hd, List.getLast?_nil])
    · have hlast := List.rdropWhile_last_not (· ≠ '/') w hd
      exact .inr (by rw [List.getLast?_eq_some_getLast hd]; simpa using hlast)

/-- A text is what is before its trailing slashes, and these. -/
theorem exists_slashes (l : List Char) :
    ∃ tail, l = l.rdropWhile (· = '/') ++ tail ∧ ∀ c ∈ tail, c = '/' :=
  ⟨l.rtakeWhile (· = '/'), List.rdropWhile_append_rtakeWhile.symm, fun c hc => by
    simpa using List.mem_rtakeWhile_imp hc⟩

theorem getLast?_rdropWhile (l : List Char) : (l.rdropWhile (· = '/')).getLast? ≠ some '/' := by
  by_cases hne : l.rdropWhile (· = '/') = []
  · simp [hne]
  · have hlast := List.rdropWhile_last_not (· = '/') l hne
    simpa [List.getLast?_eq_some_getLast hne] using hlast

/-- The slashes after the first word are all at the end of the command; and the word ends in one
only where nothing follows it. -/
def SlashesAside (cmd w : String) : Prop :=
  '/' ∉ (afterFirstWord cmd).rdropWhile (· = '/') ∧
    (w.toList.getLast? ≠ some '/' ∨ afterFirstWord cmd = [] ∧ ∃ c ∈ w.toList, c ≠ '/')

instance (cmd w : String) : Decidable (SlashesAside cmd w) :=
  inferInstanceAs (Decidable (_ ∧ _))

theorem takeWhile_eq_nil_of_append {p : Char → Bool} {l tail : List Char}
    (h : (l ++ tail).takeWhile p = []) : l.takeWhile p = [] := by
  cases l with
  | nil => rfl
  | cons c l =>
    have hc : ¬ p c = true := fun hc => by simp [hc] at h
    exact List.takeWhile_cons_of_neg hc

/-- The name in the word, what follows it, and the trailing slashes of the whole command. -/
theorem SlashesAside.parts {cmd w : String} (h : SlashesAside cmd w) (hne : w.toList ≠ [])
    (hrest : (afterFirstWord cmd).takeWhile wordChar = []) :
    ∃ dir elem rest tail, w.toList ++ afterFirstWord cmd = dir ++ (elem ++ (rest ++ tail)) ∧
      base w = String.ofList elem ∧ LastElem dir elem tail ∧ (∀ c ∈ elem, c ∈ w.toList) ∧
      '/' ∉ rest ∧ rest.takeWhile wordChar = [] := by
  obtain ⟨hslash, hend | ⟨hnil, c, hc, hcs⟩⟩ := h
  · obtain ⟨dir, elem, hw, helem⟩ := exists_lastElem hne hend
    obtain ⟨tail, htail, hslashes⟩ := exists_slashes (afterFirstWord cmd)
    rw [htail] at hrest
    refine ⟨dir, elem, _, tail, ?_, helem.base (by simpa using hw),
      { helem with tail := hslashes }, fun c hc => hw ▸ List.mem_append_right dir hc, hslash,
      takeWhile_eq_nil_of_append hrest⟩
    rw [← htail, hw, List.append_assoc]
  · -- the whole command is the word: its own trailing slashes are the command's
    have hcore : w.toList.rdropWhile (· = '/') ≠ [] := by
      rw [ne_eq, List.rdropWhile_eq_nil_iff]
      exact fun hall => hcs (by simpa using hall c hc)
    obtain ⟨dir, elem, hw, helem⟩ := exists_lastElem hcore (getLast?_rdropWhile _)
    obtain ⟨tail, htail, hslashes⟩ := exists_slashes w.toList
    have hlast : LastElem dir elem tail := { helem with tail := hslashes }
    have hsplit : w.toList = dir ++ (elem ++ tail) := by
      rw [← List.append_assoc, ← hw]
      exact htail
    refine ⟨dir, elem, [], tail, ?_, hlast.base hsplit, hlast, fun c hc => ?_, by simp, rfl⟩
    · rw [hnil, List.append_nil, hsplit, List.nil_append]
    · rw [hsplit]
      exact List.mem_append_right dir (List.mem_append_left tail hc)

/-- The last path element of a command begins with the name in its first word. -/
theorem SlashesAside.head?_fields_base {cmd w : String} (h : SlashesAside cmd w)
    (hw : (fields cmd).head? = some w) : (fields (base cmd)).head? = some (base w) := by
  obtain ⟨lead, hcmd, har⟩ := around_of_fields hw
  obtain ⟨dir, elem, rest, tail, hsplit, hbase, helem, hsub, hrest, hstop⟩ := h.parts har.ne har.rest
  have hword : ∀ c ∈ elem, wordChar c = true := fun c hc => har.word c (hsub c hc)
  rw [hsplit] at hcmd
  rw [hbase]
  obtain hdir | hdir := helem.dir
  · -- no slash before the name: the white space stays
    rw [List.getLast?_eq_none_iff] at hdir
    subst hdir
    have hlead : '/' ∉ lead := fun hm => absurd (har.lead _ hm) (by decide)
    have hall : LastElem [] (lead ++ (elem ++ rest)) tail := by
      refine ⟨?_, ?_, .inl rfl, helem.tail⟩
      · simp [helem.ne]
      · simp [hlead, hrest, helem.slash]
    rw [hall.base (by simpa [List.append_assoc] using hcmd)]
    exact (⟨har.lead, hword, helem.ne, hstop⟩ : Around lead elem rest).head?_fields
      String.toList_ofList
  · have hlast : LastElem (lead ++ dir) (elem ++ rest) tail :=
      ⟨by simp [helem.ne], by simp [helem.slash, hrest], .inr (by simp [hdir]), helem.tail⟩
    rw [hlast.base (by simpa [List.append_assoc] using hcmd)]
    exact (⟨by simp, hword, helem.ne, hstop⟩ : Around [] elem rest).head?_fields
      String.toList_ofList

/-- Where a slash stands in between, the last path element is text from after the word. -/
theorem base_infix_of_not {cmd w : String} (h : ¬ SlashesAside cmd w)
    (hw : (fields cmd).head? = some w) (hname : ∃ c ∈ w.toList, c ≠ '/') :
    (base cmd).toList <:+: afterFirstWord cmd := by
  obtain ⟨lead, hcmd, har⟩ := around_of_fields hw
  obtain ⟨tail, htail, hslashes⟩ := exists_slashes (afterFirstWord cmd)
  generalize hcore : (afterFirstWord cmd).rdropWhile (· = '/') = core at htail
  have hend : core.getLast? ≠ some '/' := hcore ▸ getLast?_rdropWhile _
  rw [htail] at hcmd ⊢
  by_cases hslash : '/' ∈ core
  · obtain ⟨dir, elem, rfl, helem⟩ := exists_lastElem (List.ne_nil_of_mem hslash) hend
    have hdir : dir.getLast? = some '/' := by
      obtain hnil | hdir := helem.dir
      · rw [List.getLast?_eq_none_iff] at hnil
        subst hnil
        exact absurd hslash helem.slash
      · exact hdir
    have hlast : LastElem (lead ++ (w.toList ++ dir)) elem tail :=
      ⟨helem.ne, helem.slash, .inr (by simp [hdir]), hslashes⟩
    rw [hlast.base (by simpa [List.append_assoc] using hcmd), String.toList_ofList]
    exact ⟨dir, tail, rfl⟩
  · -- the word itself ends in a slash, and something follows it
    have hcond : w.toList.getLast? = some '/' ∧ afterFirstWord cmd ≠ [] := by
      by_contra hnot
      refine h ⟨hcore ▸ hslash, ?_⟩
      by_cases hlast : w.toList.getLast? = some '/'
      · exact .inr ⟨by simpa [hlast] using hnot, hname⟩
      · exact .inl hlast
    have hne : core ≠ [] := by
      rintro rfl
      rw [List.nil_append] at htail
      have hrest := har.rest
      cases hl : afterFirstWord cmd with
      | nil => exact hcond.2 hl
      | cons c l =>
        have hc : c = '/' := hslashes c (by rw [← htail, hl]; exact List.mem_cons_self)
        rw [hl, hc] at hrest
        simp [wordChar, show isSpace '/' = false by decide] at hrest
    have hlast : LastElem (lead ++ w.toList) core tail :=
      ⟨hne, hslash, .inr (by simp [hcond.1]), hslashes⟩
    rw [hlast.base (by simpa [List.append_assoc] using hcmd), String.toList_ofList]
    exact ⟨[], tail, rfl⟩

/-! ## 2. The condition -/

/-- A line that is not read has no reading. -/
theorem parsed_eq_false {scope : EvalScope}
    (h : ∀ f bashOnly, ¬ ReadsAs scope.host scope.shellKind scope.args f bashOnly) :
    scope.shell.parsed = false := by
  unfold EvalScope.shell analyzeShellArgs lineFromArgs
  cases hsrc : lineSource scope.args with
  | none => rfl
  | some src =>
    by_cases hlen : maxLineBytes < src.utf8ByteSize
    · simp only [if_pos hlen]
      rfl
    simp only [if_neg hlen]
    unfold parse
    by_cases hs : structural scope.shellKind scope.host.goos = true
    · have hguard : ¬ (maxLineBytes < src.utf8ByteSize ∨ trimSpace src = "") :=
        not_or.mpr ⟨hlen, trimSpace_lineSource_ne hsrc⟩
      cases hf : parseFile scope.host.parser src with
      | none =>
        simp only [if_pos hs, if_neg hguard]
        rfl
      | some r => exact absurd ⟨hs, src, hsrc, Nat.not_lt.mp hlen, hf⟩ (h r.1 r.2)
    · simp only [if_neg hs]
      rfl

theorem found_of_conditionMatches {scope : EvalScope} {c : Condition} {action : Action}
    {st : EvalState} (hop : c.op = .commandBlacklist)
    (h : (conditionMatches scope c action st).1 = true) :
    (commandInListMatch scope c.value).isSome = true := by
  by_contra hnone
  rw [Bool.not_eq_true, Option.isSome_eq_false_iff, Option.isNone_iff_eq_none] at hnone
  have hvalues (l : List String) : (anyValueMatches scope c action l st).1 = false := by
    induction l with
    | nil => rfl
    | cons s l ih => simpa [anyValueMatches, valueMatches, hop, hnone] using ih
  unfold conditionMatches at h
  split at h
  · cases h
  · rw [hvalues] at h
    cases h

theorem commandBasename_eq {scope : EvalScope} {cmd w : String}
    (hcmd : scope.args.get "command" = some (.str cmd)) (hw : (fields cmd).head? = some w) :
    commandBasename scope.args = (fields (base cmd)).headD "" := by
  have hne : cmd ≠ "" := by
    rintro rfl
    cases hw
  rw [commandBasename, getCommandFromArgs, hcmd]
  exact if_neg hne

/-- **When a listed first word is caught.**  The slashes after the word are at the end of the
command, or the line is read and one of its simple commands has the name.  For a line that is not
read, no name of which comes again after the word, the first is the only way. -/
theorem blacklist_matches (scope : EvalScope) (c : Condition) (hop : c.op = .commandBlacklist)
    {v : ArgValue} (hkey : scope.args.get c.key = some v) (hv : conditionValues v ≠ [])
    {cmd w : String} (hcmd : scope.args.get "command" = some (.str cmd))
    (hw : (fields cmd).head? = some w) (hlist : base w ∈ listNames c.value)
    (action : Action) (st : EvalState) :
    (SlashesAside cmd w ∨
      (∃ f bashOnly s assigns args, ReadsAs scope.host scope.shellKind scope.args f bashOnly ∧
        f.Has (.stmt s) ∧ s.cmd = some (.callExpr assigns args) ∧ args ≠ [] ∧
        (stepFromCall assigns args).base = base w) →
      (conditionMatches scope c action st).1 = true) ∧
    ((∀ f bashOnly, ¬ ReadsAs scope.host scope.shellKind scope.args f bashOnly) →
      (∃ ch ∈ w.toList, ch ≠ '/') →
      (∀ name ∈ listNames c.value, ¬ name.toList <:+: afterFirstWord cmd) →
      (conditionMatches scope c action st).1 = true → SlashesAside cmd w) := by
  have hbase := commandBasename_eq hcmd hw
  refine ⟨fun hreach => conditionMatches_of_found hop hkey hv ?_ action st,
    fun hunread hname hfresh hmatch => ?_⟩
  · obtain haside | ⟨f, bashOnly, s, assigns, args, hreads, hhas, hcall, hne, hstep⟩ := hreach
    · rw [List.headD_eq_head?_getD, haside.head?_fields_base hw, Option.getD_some] at hbase
      have hne : base w ≠ "" := by simpa using (List.mem_filter.1 hlist).2
      have hin : commandBasenameInList scope.args c.value = true := by
        simp [commandBasenameInList, hbase, hne, hlist]
      rw [commandInListMatch, if_pos hin]
      rfl
    · have heq : scope.shell = _ := analyzeShellArgs_eq hreads
      have hmem : stepFromCall assigns args ∈ scope.shell.commands := by
        rw [heq]
        exact mem_commands_of_has (adds_deeperAt _ _) hhas hcall hne _
      exact commandInListMatch_of_mem (parsed_analyzeShellArgs hreads) hmem (hstep ▸ hlist)
  · by_contra hnot
    have hfound := found_of_conditionMatches hop hmatch
    have hin : commandBasenameInList scope.args c.value = true := by
      by_contra hin
      simp [commandInListMatch, hin, structuralCommandInList, parsed_eq_false hunread] at hfound
    simp only [commandBasenameInList, hbase, Bool.and_eq_true, decide_eq_true_eq,
      List.contains_iff_mem] at hin
    obtain ⟨hne, hmem⟩ := hin
    -- what was found is a word of the last path element, which lies after the first word
    cases hhead : (fields (base cmd)).head? with
    | none => simp [List.headD_eq_head?_getD, hhead] at hne
    | some name =>
      rw [List.headD_eq_head?_getD, hhead, Option.getD_some] at hmem
      exact hfresh name hmem
        ((infix_of_fields hhead).trans (base_infix_of_not hnot hw hname))

/-- A call that only carries a command line. -/
def commandCall (line : String) (kind : Kind) : EvalScope where
  host := ⟨"windows", ⟨fun _ => none, fun _ => none⟩, fun _ => none, fun _ => none,
    fun _ => .error "", id, fun _ _ => false, fun _ => none, fun _ => false⟩
  shellKind := kind
  args := ⟨[("command", .str line)], by simp⟩
  trusted := none

/-- `rm -r /x` on PowerShell: the last path element is `x`, and `rm` is not found. -/
theorem listed_word_missed : (fields "rm -r /x").head? = some "rm" ∧
    base "rm" ∈ listNames "rm" ∧
    (conditionMatches (commandCall "rm -r /x" .powerShell) ⟨"command", .commandBlacklist, "rm"⟩ .deny
      ⟨"", .zero⟩).1 = false := by
  decide

/-- The theorem at `/bin/rm -rf /` on PowerShell, and at the call above. -/
theorem blacklist_matches_rm :
    (conditionMatches (commandCall "/bin/rm -rf /" .powerShell)
      ⟨"command", .commandBlacklist, "rm"⟩ .deny ⟨"", .zero⟩).1 = true ∧
    ((conditionMatches (commandCall "rm -r /x" .powerShell)
      ⟨"command", .commandBlacklist, "rm"⟩ .deny ⟨"", .zero⟩).1 = true → SlashesAside "rm -r /x" "rm") :=
  ⟨(blacklist_matches (w := "/bin/rm") (commandCall "/bin/rm -rf /" .powerShell) _ rfl rfl (by decide)
      rfl (by decide) (by decide) .deny _).1 (.inl (by decide)),
    (blacklist_matches (w := "rm") (commandCall "rm -r /x" .powerShell) _ rfl rfl (by decide) rfl
      (by decide) (by decide) .deny _).2 (fun _ _ h => by cases h.1) ⟨'r', by decide, by decide⟩
      (by decide)⟩

end Contenox.Hitl
