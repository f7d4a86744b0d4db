/-
# Standing denies

A call that an `always_deny` rule matches is denied.  Three places state such rules: the root's
`[policy]` block, the envelope of the agent's posture, and the envelopes it extends.  The rules
travel through the merge of the agent's section, the layering of the chain and the emission, and
must come out in front.

All stages keep them but one: the merge of a section's envelopes treats `always_deny` like any
list, and a list in the section REPLACES the root's.  A section that states `always_deny` or
`extends` for an envelope of the chain can drop a rule; `Keeps` says that it does not.
-/
import Contenox.AgentDecl.Emit
import Contenox.Policy.FirstMatch

namespace Contenox.AgentDecl

open Lib Hitl Shell

variable {r : StandingRule}

/-! ## 1. A deny in front -/

/-- The call matches the rule, as a rule that denies. -/
def DeniedBy (host : Host) (kind : Kind) (args : Args) (toolsName toolName : String)
    (r : StandingRule) : Prop :=
  (ruleMatches ⟨host, kind, args, none⟩ (r.rule .deny) toolsName toolName
    ⟨"", MatchNote.zero⟩).1 = true

variable {env : Envelope}

/-- A standing deny of an envelope decides under the policy emitted for it. -/
theorem evaluate_denies {toolRules extraRules : List Rule} {p : EmittedPolicy}
    (hrules : p.rules = orderedRules env toolRules extraRules) (hr : r ∈ env.alwaysDeny)
    {host : Host} {kind : Kind} {args : Args} {toolsName toolName : String}
    (hmatch : DeniedBy host kind args toolsName toolName r) :
    (evaluate host kind p.toPolicy toolsName toolName args).action = .deny := by
  have hhit : (r.rule .deny).hits ⟨host, kind, args, p.trustedBinaries⟩ toolsName toolName = true := by
    rw [hits_bare (by simp [StandingRule.rule])]
    exact hmatch
  -- the first rule that matches is one of the standing denies, since one of them does
  have hfound : ((standingRules env.alwaysDeny .deny).find?
      (·.hits ⟨host, kind, args, p.trustedBinaries⟩ toolsName toolName)).isSome = true :=
    List.find?_isSome.mpr ⟨_, List.mem_map.mpr ⟨r, hr, rfl⟩, hhit⟩
  obtain ⟨d, hd⟩ := Option.isSome_iff_exists.mp hfound
  obtain ⟨r', -, rfl⟩ := List.mem_map.mp (List.mem_of_find?_eq_some hd)
  rw [evaluate_action, hrules]
  unfold orderedRules
  simp only [List.append_assoc]
  rw [List.find?_append, hd]
  rfl

/-! ## 2. Layers keep them -/

theorem foldl_insert_mem {out l : List StandingRule} :
    r ∈ l.foldl (fun out r => if r ∈ out then out else out ++ [r]) out ↔ r ∈ out ∨ r ∈ l := by
  induction l generalizing out with
  | nil => simp
  | cons a l ih =>
    rw [List.foldl_cons, ih, List.mem_cons]
    split
    · have hold : r = a → r ∈ out := fun h => h ▸ ‹_›
      tauto
    · simp [or_assoc]

theorem mem_concatStandingRules {parent child : List StandingRule} :
    r ∈ concatStandingRules parent child ↔ r ∈ parent ∨ r ∈ child := by
  unfold concatStandingRules
  rw [foldl_insert_mem]
  simp

variable {chain : List Envelope}

/-- The standing denies of every envelope of a chain are those of the whole. -/
theorem mem_layered {base : Envelope} (henv : env ∈ chain) (hr : r ∈ env.alwaysDeny) :
    r ∈ (chain.foldr (fun env out => layerEnvelope out env) base).alwaysDeny := by
  induction chain with
  | nil => cases henv
  | cons e chain ih =>
    refine mem_concatStandingRules.mpr ?_
    rcases List.mem_cons.mp henv with rfl | henv
    · exact .inr hr
    · exact .inl (ih henv)

/-! ## 3. What the root declares, and what a section keeps -/

variable {posture : Posture}

section Root

variable (tx : Texts)

/-- The `always_deny` rules of an envelope. -/
def declaredDenies (envelopes : List (String × Doc)) (name : String) : List StandingRule :=
  match (envelopes.lookup name).bind (·.lookup "always_deny") with
  | none => []
  | some v => (parseStandingRules tx "always_deny" v).toOption.getD []

/-- The envelope an envelope extends. -/
def parentOf (envelopes : List (String × Doc)) (name : String) : Option String :=
  ((envelopes.lookup name).bind (·.lookup "extends")).bind fun v => (parseExtends tx v).toOption

/-- An envelope or one of its ancestors. -/
abbrev Above (envelopes : List (String × Doc)) : String → String → Prop :=
  Relation.ReflTransGen fun n m => parentOf tx envelopes n = some m

/-- The section of an agent, for an envelope the root declares, states neither another parent nor
a list of standing denies that lacks one of the root's. -/
structure KeepsEnvelope (envelopes : List (String × Doc)) (name : String) (section_ : Doc) :
    Prop where
  parent : ∀ v m, section_.lookup "extends" = some v → parentOf tx envelopes name = some m →
    parseExtends tx v = .ok m
  denies : ∀ v l, section_.lookup "always_deny" = some v →
    parseStandingRules tx "always_deny" v = .ok l → ∀ r ∈ declaredDenies tx envelopes name, r ∈ l

/-- The section keeps every envelope of the chain. -/
def Keeps (envelopes stated : List (String × Doc)) (name : String) : Prop :=
  ∀ n, Above tx envelopes name n → ∀ section_, stated.lookup n = some section_ →
    KeepsEnvelope tx envelopes n section_

variable {tx} {envelopes stated : List (String × Doc)} {n m : String} {raw : Doc} {env : Envelope}

/-- A key of an envelope after the merge: as the root has it, or as the section states it. -/
theorem lookup_merged {base : Doc} (hbase : envelopes.lookup n = some base)
    (hraw : (mergeRawSections envelopes stated).lookup n = some raw) (k : String) :
    raw.lookup k = base.lookup k ∨ ∃ section_ v, stated.lookup n = some section_ ∧
      section_.lookup k = some v ∧ raw.lookup k = some (mergeValue (base.lookup k) v) := by
  rw [lookup_mergeRawSections, hbase] at hraw
  cases hs : stated.lookup n with
  | none =>
    rw [hs] at hraw
    exact .inl (by rw [Option.some.inj hraw])
  | some section_ =>
    rw [hs] at hraw
    have hraw : mergeRaw base section_ = raw := Option.some.inj hraw
    subst hraw
    rw [lookup_mergeRaw]
    cases hv : section_.lookup k with
    | none => exact .inl rfl
    | some v => exact .inr ⟨section_, v, rfl, hv, rfl⟩

theorem parentOf_some (h : parentOf tx envelopes n = some m) : ∃ base v,
    envelopes.lookup n = some base ∧ base.lookup "extends" = some v ∧ parseExtends tx v = .ok m := by
  obtain ⟨v, hv, hparse⟩ := Option.bind_eq_some_iff.mp h
  obtain ⟨base, hbase, hv⟩ := Option.bind_eq_some_iff.mp hv
  refine ⟨base, v, hbase, hv, ?_⟩
  cases hok : parseExtends tx v with
  | error e => simp [hok, Except.toOption] at hparse
  | ok s => simpa [hok, Except.toOption] using hparse

theorem parentOf_ne_empty (h : parentOf tx envelopes n = some m) : m ≠ "" := by
  obtain ⟨-, v, -, -, hparse⟩ := parentOf_some h
  rintro rfl
  unfold parseExtends at hparse
  split at hparse
  · cases hparse
  split at hparse
  · rename_i hname
    cases hparse
    exact absurd hname (by decide)
  · cases hparse

theorem mem_declaredDenies (h : r ∈ declaredDenies tx envelopes n) :
    ∃ base v l, envelopes.lookup n = some base ∧ base.lookup "always_deny" = some v ∧
      parseStandingRules tx "always_deny" v = .ok l ∧ r ∈ l := by
  unfold declaredDenies at h
  split at h
  · cases h
  rename_i v hv
  obtain ⟨base, hbase, hv⟩ := Option.bind_eq_some_iff.mp hv
  cases hok : parseStandingRules tx "always_deny" v with
  | error e => simp [hok, Except.toOption] at h
  | ok l => exact ⟨base, v, l, hbase, hv, hok, by simpa [hok, Except.toOption] using h⟩

/-- After the merge an envelope has the parent the root gave it. -/
theorem merged_parent (hkeeps : ∀ section_, stated.lookup n = some section_ →
      KeepsEnvelope tx envelopes n section_) (hparent : parentOf tx envelopes n = some m)
    (henv : parseDeclared tx (mergeRawSections envelopes stated) n = .ok env) :
    env.extendsName = m := by
  obtain ⟨base, v₀, hbase, hv₀, hm⟩ := parentOf_some hparent
  obtain ⟨raw, hraw, hparse⟩ := parseDeclared_ok henv
  rcases lookup_merged hbase hraw "extends" with hsame | ⟨section_, v, hs, hv, hmerged⟩
  · exact Except.ok.inj ((parseEnvelope_extends hparse (hsame.trans hv₀)).symm.trans hm)
  · have hok := ok_of_mergeValue (fun t h => by cases h) (parseEnvelope_extends hparse hmerged)
    exact Except.ok.inj (hok.symm.trans ((hkeeps section_ hs).parent v m hv hparent))

/-- After the merge an envelope has the standing denies the root gave it. -/
theorem merged_denies (hkeeps : ∀ section_, stated.lookup n = some section_ →
      KeepsEnvelope tx envelopes n section_) (hr : r ∈ declaredDenies tx envelopes n)
    (henv : parseDeclared tx (mergeRawSections envelopes stated) n = .ok env) :
    r ∈ env.alwaysDeny := by
  obtain ⟨base, v₀, l, hbase, hv₀, hl, hrl⟩ := mem_declaredDenies hr
  obtain ⟨raw, hraw, hparse⟩ := parseDeclared_ok henv
  rcases lookup_merged hbase hraw "always_deny" with hsame | ⟨section_, v, hs, hv, hmerged⟩
  · rw [Except.ok.inj ((parseEnvelope_alwaysDeny hparse (hsame.trans hv₀)).symm.trans hl)]
    exact hrl
  · have hok := ok_of_mergeValue (fun t h => by cases h) (parseEnvelope_alwaysDeny hparse hmerged)
    exact (hkeeps section_ hs).denies v _ hv hok r hr

/-- The chain of an envelope after the merge still holds the standing denies of every envelope
the root puts above it. -/
theorem chain_denies {name cur : String} (habove : Above tx envelopes cur n)
    (hkeeps : Keeps tx envelopes stated cur) (hr : r ∈ declaredDenies tx envelopes n) {room : Nat}
    {seen : List String}
    (hchain : extendsChain tx (mergeRawSections envelopes stated) name room seen cur = .ok chain) :
    ∃ env ∈ chain, r ∈ env.alwaysDeny := by
  induction habove using Relation.ReflTransGen.head_induction_on generalizing room seen chain with
  | refl =>
    obtain ⟨env, rest, henv, rfl, -⟩ := extendsChain_ok hchain
    exact ⟨env, List.mem_cons_self, merged_denies (hkeeps n .refl) hr henv⟩
  | head hparent _ ih =>
    obtain ⟨env, rest, henv, rfl, hrest⟩ := extendsChain_ok hchain
    have heq := merged_parent (hkeeps _ .refl) hparent henv
    have hne := parentOf_ne_empty hparent
    rw [← heq] at hne
    obtain ⟨room', seen', hrest⟩ := hrest hne
    rw [heq] at hrest
    obtain ⟨e, he, hre⟩ := ih (fun k hk => hkeeps k (.head hparent hk)) hrest
    exact ⟨e, List.mem_cons_of_mem _ he, hre⟩

/-- An envelope the root does not declare has nothing above it and denies nothing. -/
theorem not_declaredDenies {name : String} (hnone : envelopes.lookup name = none)
    (habove : Above tx envelopes name n) (r : StandingRule) : r ∉ declaredDenies tx envelopes n := by
  intro hr
  rcases habove.cases_head with rfl | ⟨m, hparent, -⟩
  · obtain ⟨base, -, -, hbase, -⟩ := mem_declaredDenies hr
    rw [hnone] at hbase
    cases hbase
  · obtain ⟨base, -, hbase, -⟩ := parentOf_some hparent
    rw [hnone] at hbase
    cases hbase

/-- The envelope a posture resolves to after the merge holds them. -/
theorem postureEnvelope_denies {cfg : Config} (hkeeps : Keeps tx envelopes stated posture.text)
    (habove : Above tx envelopes posture.text n) (hr : r ∈ declaredDenies tx envelopes n)
    (hcfg : cfg.envelopes = mergeRawSections envelopes stated)
    (henv : cfg.postureEnvelope tx posture = .ok env) : r ∈ env.alwaysDeny := by
  have hname : posture.text ≠ "" := by cases posture <;> decide
  unfold Config.postureEnvelope resolveEnvelope at henv
  rw [if_neg hname, hcfg] at henv
  cases hchain : extendsChain tx (mergeRawSections envelopes stated) posture.text
      maxEnvelopeChainDepth [] posture.text with
  | ok chain =>
    rw [hchain] at henv
    cases henv
    obtain ⟨e, he, hre⟩ := chain_denies habove hkeeps hr hchain
    exact mem_layered he hre
  | error e =>
    rw [hchain] at henv
    cases e with
    | malformed msg => cases henv
    | noEnvelope msg =>
      -- only a posture that neither the root nor the section declares falls back on `[policy]`
      have hnone := extendsChain_noEnvelope hchain
      rw [lookup_mergeRawSections, Option.or_eq_none_iff] at hnone
      exact absurd hr (not_declaredDenies hnone.2 habove r)

end Root

/-! ## 4. The emitted policy -/

section

variable {tx : Texts} {toml : Toml} {cfg acfg : Config} {agent : String}

/-- The section of the agent, if it has one, keeps the envelopes of its posture. -/
def SectionKeeps (tx : Texts) (toml : Toml) (cfg : Config) (agent : String) (posture : Posture) :
    Prop :=
  ∀ stated, cfg.overlay toml agent = .ok (some stated) →
    Keeps tx cfg.envelopes stated.envelopes posture.text

/-- A standing deny of the posture's envelope, as the root declares it, or of an ancestor. -/
def EnvelopeDenies (tx : Texts) (cfg : Config) (posture : Posture) (r : StandingRule) : Prop :=
  ∃ n, Above tx cfg.envelopes posture.text n ∧ r ∈ declaredDenies tx cfg.envelopes n

/-- The `[policy]` block of an agent only adds to the root's rules. -/
theorem forAgent_alwaysDeny (hfor : cfg.forAgent toml agent = .ok acfg)
    (hr : r ∈ cfg.policy.alwaysDeny) : r ∈ acfg.policy.alwaysDeny := by
  rcases forAgent_ok hfor with ⟨-, rfl⟩ | ⟨stated, -, rfl⟩
  · exact hr
  · exact List.mem_append_left _ hr

/-- The envelope of an agent's posture, where its section keeps the root's. -/
theorem forAgent_envelope (hfor : cfg.forAgent toml agent = .ok acfg)
    (hkeeps : SectionKeeps tx toml cfg agent posture) (hr : EnvelopeDenies tx cfg posture r)
    (henv : acfg.postureEnvelope tx posture = .ok env) : r ∈ env.alwaysDeny := by
  obtain ⟨n, habove, hr⟩ := hr
  rcases forAgent_ok hfor with ⟨-, rfl⟩ | ⟨stated, hstated, rfl⟩
  · have hnothing : Keeps tx cfg.envelopes [] posture.text := by
      intro _ _ _ h
      cases h
    exact postureEnvelope_denies hnothing habove hr rfl henv
  · exact postureEnvelope_denies (hkeeps stated hstated) habove hr rfl henv

/-- A call that a standing deny matches is denied under the policy emitted for an agent, whatever
the agent's section grants: a rule of the root's `[policy]` block in any case, a rule of the
posture's envelope or of an ancestor where the section keeps the envelopes of that chain. -/
theorem standing_deny_decides (hfor : cfg.forAgent toml agent = .ok acfg) {ir : AgentIR}
    {p : EmittedPolicy} (hemit : emitPolicy tx ir acfg = .ok p) {r : StandingRule}
    (hr : r ∈ cfg.policy.alwaysDeny ∨
      SectionKeeps tx toml cfg agent ir.posture ∧ EnvelopeDenies tx cfg ir.posture r)
    {host : Host} {kind : Kind} {args : Args} {toolsName toolName : String}
    (hmatch : DeniedBy host kind args toolsName toolName r) :
    (evaluate host kind p.toPolicy toolsName toolName args).action = .deny := by
  obtain ⟨defaultAction, env, toolRules, henv, -, hrules⟩ := emitPolicy_ok hemit
  refine evaluate_denies hrules ?_ hmatch
  refine mem_concatStandingRules.mpr ?_
  rcases hr with hr | ⟨hkeeps, hr⟩
  · exact .inl (forAgent_alwaysDeny hfor hr)
  · exact .inr (forAgent_envelope hfor hkeeps hr henv)

end

/-! ## 5. A section that states a list -/

def plainTexts : Texts where
  quote s := "\"" ++ s ++ "\""
  parseDuration _ := none
  formatDuration d := toString d

/-- A root whose `ask_always` locks `write_file`; `auto_edit` extends it and lets edits run.  The
section of `scribe` states one envelope. -/
def lockedConfig (name : String) (section_ : Doc) : Config where
  chain := ⟨0, 10, 2⟩
  policy :=
    { defaultAction := "approve", compute := ⟨0, 0, "", 0, [], []⟩
      attention := ⟨false, 0, false, 0⟩, alwaysDeny := [], alwaysAllow := [], postures := [] }
  envelopes := [
    ("read_only", []),
    ("ask_always", [("always_deny",
      .list [.table [("tools", .str "local_fs"), ("tool", .str "write_file")]])]),
    ("auto_edit", [("extends", .str "ask_always"), ("files", .table [("write", .str "allow")])])]
  agents := [("scribe", [("envelopes", .table [(name, .table section_)])])]

/-- A library that knows the section of `scribe`. -/
def scribeToml (name : String) (section_ : Doc) : Toml where
  marshal _ := .ok ("[envelopes." ++ name ++ "]")
  unmarshal _ cfg := .ok { cfg with envelopes := [(name, section_)] }

def scribe : AgentIR := ⟨"scribe", "claude", .autoEdit, false, none⟩

def lockedWrites : StandingRule := ⟨"local_fs", "write_file", "", "", ""⟩

theorem lockedConfig_denies (name : String) (section_ : Doc) :
    EnvelopeDenies plainTexts (lockedConfig name section_) .autoEdit lockedWrites :=
  ⟨"ask_always", .single rfl, List.mem_singleton_self _⟩

/-- A section that only describes an envelope keeps it. -/
theorem sectionKeeps_description (name text : String) :
    SectionKeeps plainTexts (scribeToml name [("description", .str text)])
      (lockedConfig name [("description", .str text)]) "scribe" .autoEdit := by
  intro stated hstated n _ section_ hs
  cases hstated
  rw [List.lookup_cons] at hs
  split at hs
  · cases hs
    constructor
    · intro v m hv
      cases hv
    · intro v l hv
      cases hv
  · cases hs

/-- The lock holds for `scribe` while its section states a description. -/
theorem standing_deny_decides_scribe : ∃ acfg p,
    (lockedConfig "auto_edit" [("description", .str "prose")]).forAgent
      (scribeToml "auto_edit" [("description", .str "prose")]) "scribe" = .ok acfg ∧
    emitPolicy plainTexts scribe acfg = .ok p ∧
    (evaluate plainHost .posix p.toPolicy "local_fs" "write_file" Args.empty).action = .deny := by
  have hkeeps := sectionKeeps_description "auto_edit" "prose"
  have hdenies := lockedConfig_denies "auto_edit" [("description", .str "prose")]
  have hfor : (lockedConfig "auto_edit" [("description", .str "prose")]).forAgent
      (scribeToml "auto_edit" [("description", .str "prose")]) "scribe" = .ok _ := rfl
  refine ⟨_, _, hfor, rfl, ?_⟩
  refine standing_deny_decides hfor (?_ : emitPolicy plainTexts scribe _ = .ok _)
    (.inr ⟨hkeeps, hdenies⟩) rfl
  rfl

/-- A section that states an empty `always_deny` for the ancestor drops the lock: the call the
root denies is allowed. -/
theorem empty_list_waives : ∃ acfg p,
    (lockedConfig "ask_always" [("always_deny", .list [])]).forAgent
      (scribeToml "ask_always" [("always_deny", .list [])]) "scribe" = .ok acfg ∧
    emitPolicy plainTexts scribe acfg = .ok p ∧
    EnvelopeDenies plainTexts (lockedConfig "ask_always" [("always_deny", .list [])]) .autoEdit
      lockedWrites ∧
    DeniedBy plainHost .posix Args.empty "local_fs" "write_file" lockedWrites ∧
    (evaluate plainHost .posix p.toPolicy "local_fs" "write_file" Args.empty).action = .allow :=
  ⟨_, _, rfl, rfl, lockedConfig_denies _ _, rfl, rfl⟩

end Contenox.AgentDecl
