/-
# Vetting and loading a policy document

`VetPolicy` is for authors, `loadPolicy` for the runtime.  Both decode the document and apply
`validatePolicy`.  Vetting also checks every key; loading decodes the blocks `compute` and
`trusted_binaries` once more, with unknown fields refused.  The two disagree on comments: a key
that starts with `//`, and `$schema`, pass the vet wherever they stand, but a strict decoder knows
no such field (`loadPolicy_of_vetPolicy`).

The syntax of JSON, the types of the fields and `validatePolicy` are parameters, the same for both.
-/
import Contenox.Lib.GoStrings

namespace Contenox.Hitl

open Lib

/-! ## 1. Decoding -/

inductive Json
  | null
  | bool (b : Bool)
  | num (text : String)
  | str (s : String)
  | arr (items : List Json)
  | obj (fields : List (String × Json))

/-- What vetting reads of a decoded rule. -/
structure RuleText where
  tools : String
  tool : String
  action : String
  timeoutS : Int
  onTimeout : String

/-- `encoding/json`, and what is done with the decoded policy. -/
structure Decoder (P : Type) where
  parse : String → Except String Json
  /-- the error about a value that is of another kind -/
  mismatch : Json → String
  /-- the error about the value of a field, if there is one -/
  value : String → Json → Option String
  policy : List (String × Json) → P
  rules : P → List RuleText
  validatePolicy : P → Option String
  quote : String → String

/-- The value a map holds under the key: that of the last occurrence. -/
def raw (fields : List (String × Json)) (key : String) : Option Json := fields.reverse.lookup key

/-- The field a key names: itself, or one that differs in case only. -/
def fieldOf (known : List String) (key : String) : Option String :=
  if key ∈ known then some key else known.find? (GoStrings.equalFold key ·)

section Decode

variable {P : Type} (d : Decoder P)

/-- Into a map; `null` is an empty one. -/
def toMap : Json → Except String (List (String × Json))
  | .null => .ok []
  | .obj fields => .ok fields
  | v => .error (d.mismatch v)

def toMaps : Json → Except String (List (List (String × Json)))
  | .null => .ok []
  | .arr items => items.mapM (toMap d)
  | v => .error (d.mismatch v)

/-- Into a struct: the first complaint.  Only a strict decoder minds a key that names no field. -/
def decodeStruct (strict : Bool) (known : List String) (value : String → Json → Option String) :
    List (String × Json) → Option String
  | [] => none
  | (key, v) :: rest =>
    (match fieldOf known key with
      | some field => value field v
      | none => if strict then some ("json: unknown field " ++ d.quote key) else none).or
    (decodeStruct strict known value rest)

def decodeBlock (strict : Bool) (block : String) (known : List String) : Json → Option String
  | .null => none
  | .obj fields => decodeStruct d strict known (fun field => d.value (block ++ "." ++ field)) fields
  | v => some (d.mismatch v)

def policyFields : List String :=
  ["version", "default_action", "rules", "compute", "attention", "trusted_binaries"]

def computeFields : List String :=
  ["maxTurns", "maxToolCalls", "maxTokens", "modelAllowlist", "backendAllowlist", "onExhausted"]

def attentionFields : List String :=
  ["allowAgentAnswers", "maxAgentAnswers", "allowAgentApprovals", "maxAgentApprovals"]

def trustedFields : List String := ["dirs", "hashes"]

/-- The fields of `Policy`: three of them are blocks. -/
def policyValue (field : String) (v : Json) : Option String :=
  if field = "compute" then decodeBlock d false field computeFields v
  else if field = "attention" then decodeBlock d false field attentionFields v
  else if field = "trusted_binaries" then decodeBlock d false field trustedFields v
  else d.value field v

def decodePolicy (top : List (String × Json)) : Option String :=
  decodeStruct d false policyFields (policyValue d) top

def document (data : String) : Except String (List (String × Json)) :=
  (d.parse data).bind (toMap d)

/-! ## 2. `VetPolicy` -/

def isAnnotationKey (key : String) : Bool := GoStrings.hasPrefix key "//" || key = "$schema"

def vetUnknownKeys (place : String) (obj : List (String × Json)) (known : List String) :
    List String :=
  ((obj.map (·.1)).eraseDups.filter fun key => !isAnnotationKey key && !known.contains key).map
    fun key => (if place = "" then "policy" else place) ++ ": unknown field " ++ d.quote key ++
      " — known fields: " ++ GoStrings.join ", " known ++
      " (keys starting with // are comments; $schema is allowed)"

def vetWhen (i : Nat) (rule : List (String × Json)) : List String :=
  match raw rule "when" with
  | none => []
  | some conds =>
    match toMaps d conds with
    | .error e => [s!"rule {i}: when must be an array of " ++
        "\x7bkey, op, value\x7d conditions: " ++ e]
    | .ok conds => conds.zipIdx.flatMap fun (cond, j) =>
        vetUnknownKeys d s!"rule {i}, condition {j}" cond ["key", "op", "value"]

def vetRuleShapes : Option Json → List String
  | none => []
  | some v =>
    match toMaps d v with
    | .error e => ["rules: must be an array of rule objects: " ++ e]
    | .ok rules => rules.zipIdx.flatMap fun (rule, i) =>
        vetUnknownKeys d s!"rule {i}" rule
          ["tools", "tool", "when", "action", "timeout_s", "on_timeout"] ++ vetWhen d i rule

def vetSubObjectShape (name : String) (known : List String) : Option Json → List String
  | none | some .null => []
  | some v =>
    match toMap d v with
    | .error e => [name ++ ": must be an object: " ++ e]
    | .ok obj => vetUnknownKeys d name obj known

def maxRuleTimeoutS : Int := 7 * 24 * 60 * 60

def vetRuleSemantics (p : P) : List String :=
  (d.rules p).zipIdx.flatMap fun (r, i) =>
    ([("tools", r.tools), ("tool", r.tool)].filter fun pat =>
        pat.2 ≠ "*" && pat.2 ≠ "" && GoStrings.containsAny pat.2 "*?[").map (fun pat =>
      s!"rule {i}: " ++ pat.1 ++ " " ++ d.quote pat.2 ++ " can never match — tool names are " ++
        "compared exactly, and the only wildcard is " ++ d.quote "*" ++
        " on its own; name the tool exactly or use " ++ d.quote "*") ++
    (if maxRuleTimeoutS < r.timeoutS then [s!"rule {i}: timeout_s " ++ toString r.timeoutS ++
        s!" is out of range (max {maxRuleTimeoutS}, seven days) — a longer wait is a typo, " ++
        "not an intent"] else []) ++
    if r.action ≠ "approve" ∧ (r.timeoutS ≠ 0 ∨ r.onTimeout ≠ "") then
      [s!"rule {i}: timeout_s/on_timeout only apply when action is " ++ d.quote "approve" ++
        " — this rule's action " ++ d.quote r.action ++
        " never waits, so they would silently do nothing"] else []

def vetFailure (errs : List String) : Option String :=
  if errs = [] then none else some ("hitl policy failed validation:\n" ++ GoStrings.join "\n" errs)

def vetPolicy (data : String) : Option String :=
  match document d data with
  | .error e => some ("hitl policy failed validation: not a JSON object: " ++ e)
  | .ok top =>
    let shapes := vetUnknownKeys d "" top policyFields ++ vetRuleShapes d (raw top "rules") ++
      vetSubObjectShape d "compute" computeFields (raw top "compute") ++
      vetSubObjectShape d "attention" attentionFields (raw top "attention") ++
      vetSubObjectShape d "trusted_binaries" trustedFields (raw top "trusted_binaries")
    vetFailure (shapes ++
      match decodePolicy d top with
      | some e => ["policy does not parse: " ++ e]
      | none => (d.validatePolicy (d.policy top)).toList ++ vetRuleSemantics d (d.policy top))

/-! ## 3. `loadPolicy` -/

def rejectUnknownSubObjectFields (top : List (String × Json)) (field : String)
    (known : List String) : Option String :=
  match raw top field with
  | none | some .null => none
  | some v => (decodeBlock d true field known v).map (field ++ ": " ++ ·)

/-- On the bytes its source has read. -/
def loadPolicy (policyPath data : String) : Except String P :=
  match document d data with
  | .error e => .error ("parse hitl policy " ++ d.quote policyPath ++ ": " ++ e)
  | .ok top =>
    match decodePolicy d top with
    | some e => .error ("parse hitl policy " ++ d.quote policyPath ++ ": " ++ e)
    | none =>
      match ((rejectUnknownSubObjectFields d top "compute" computeFields).or
        (rejectUnknownSubObjectFields d top "trusted_binaries" trustedFields)).or
        (d.validatePolicy (d.policy top)) with
      | some e => .error ("invalid hitl policy " ++ d.quote policyPath ++ ": " ++ e)
      | none => .ok (d.policy top)

/-! ## 4. What passes the vet loads -/

variable {d} {fields : List (String × Json)} {known : List String}
  {value : String → Json → Option String} {f : String × Json}

theorem mem_of_raw {key : String} {v : Json} (h : raw fields key = some v) : (key, v) ∈ fields := by
  obtain ⟨before, after, heq, -⟩ := List.lookup_eq_some_iff.1 h
  rw [← List.mem_reverse, heq]
  simp

theorem mem_known_of_vet {place : String} {obj : List (String × Json)}
    (h : vetUnknownKeys d place obj known = []) (hf : f ∈ obj)
    (hplain : isAnnotationKey f.1 = false) : f.1 ∈ known := by
  rw [vetUnknownKeys, List.map_eq_nil_iff, List.filter_eq_nil_iff] at h
  have hkey : f.1 ∈ (obj.map (·.1)).eraseDups := List.mem_eraseDups.2 (List.mem_map_of_mem hf)
  simpa [hplain] using h f.1 hkey

/-- A decoded struct has no complaint about any field that stands under its own name. -/
theorem value_of_decodeStruct {strict : Bool} (h : decodeStruct d strict known value fields = none)
    (hf : f ∈ fields) (hkey : f.1 ∈ known) : value f.1 f.2 = none := by
  induction fields with
  | nil => cases hf
  | cons g rest ih =>
    rw [decodeStruct, Option.or_eq_none_iff] at h
    rcases List.mem_cons.1 hf with rfl | hrest
    · simpa [fieldOf, hkey] using h.1
    · exact ih h.2 hrest

/-- Where every key is a field's own name, strictness changes nothing. -/
theorem decodeStruct_strict (hkeys : ∀ f ∈ fields, f.1 ∈ known) :
    decodeStruct d true known value fields = decodeStruct d false known value fields := by
  induction fields with
  | nil => rfl
  | cons f rest ih =>
    have hfield : fieldOf known f.1 = some f.1 := if_pos (hkeys f (.head _))
    rw [decodeStruct, decodeStruct, hfield, ih fun g hg => hkeys g (.tail _ hg)]

/-- The keys of a block, where the document has that block. -/
def blockKeys (top : List (String × Json)) (field : String) : List String :=
  match raw top field with
  | some (.obj fields) => fields.map (·.1)
  | _ => []

theorem block_accepted {top : List (String × Json)} {field : String}
    (hvalue : policyValue d field = decodeBlock d false field known) (hfield : field ∈ policyFields)
    (hdecode : decodePolicy d top = none)
    (hvet : vetSubObjectShape d field known (raw top field) = [])
    (hplain : ∀ key ∈ blockKeys top field, isAnnotationKey key = false) :
    rejectUnknownSubObjectFields d top field known = none := by
  rw [rejectUnknownSubObjectFields]
  cases hraw : raw top field with
  | none => rfl
  | some v =>
    have hv : decodeBlock d false field known v = none :=
      hvalue ▸ value_of_decodeStruct hdecode (mem_of_raw hraw) hfield
    rw [hraw] at hvet
    rw [blockKeys, hraw] at hplain
    cases v with
    | null => rfl
    | obj fields =>
      have hkeys : ∀ f ∈ fields, f.1 ∈ known := fun f hf =>
        mem_known_of_vet hvet hf (hplain f.1 (List.mem_map_of_mem hf))
      have hstrict : decodeBlock d true field known (.obj fields) = none :=
        (decodeStruct_strict hkeys).trans hv
      exact congrArg (Option.map (field ++ ": " ++ ·)) hstrict
    | _ => cases hv

theorem document_of_vetted {data : String} (h : vetPolicy d data = none) :
    ∃ top, document d data = .ok top ∧
      vetSubObjectShape d "compute" computeFields (raw top "compute") = [] ∧
      vetSubObjectShape d "trusted_binaries" trustedFields (raw top "trusted_binaries") = [] ∧
      decodePolicy d top = none ∧ d.validatePolicy (d.policy top) = none := by
  rw [vetPolicy] at h
  cases hdoc : document d data with
  | error e => simp [hdoc] at h
  | ok top =>
    simp only [hdoc, vetFailure, ite_eq_left_iff, reduceCtorEq, imp_false, Decidable.not_not,
      List.append_eq_nil_iff] at h
    obtain ⟨⟨⟨⟨-, hcompute⟩, -⟩, htrusted⟩, hrest⟩ := h
    cases hdecode : decodePolicy d top with
    | some e => simp [hdecode] at hrest
    | none =>
      simp only [hdecode, List.append_eq_nil_iff, Option.toList_eq_nil_iff] at hrest
      exact ⟨top, rfl, hcompute, htrusted, hdecode, hrest.1⟩

def blockFields : List String := computeFields ++ trustedFields

/-- No field of the two blocks begins as a comment does. -/
theorem fieldOf_note {key : String} (hkey : isAnnotationKey key = true)
    (hknown : known ⊆ blockFields) : fieldOf known key = none := by
  have hhead : key.toList.head? = some '/' ∨ key.toList.head? = some '$' := by
    rw [isAnnotationKey, Bool.or_eq_true, GoStrings.hasPrefix_iff, decide_eq_true_eq] at hkey
    rcases hkey with ⟨rest, rfl⟩ | rfl
    · left
      simp
    · exact .inr rfl
  have hother : ∀ f ∈ blockFields, f.toList.head?.map GoStrings.fold ≠ some '/' ∧
      f.toList.head?.map GoStrings.fold ≠ some '$' := by
    decide +kernel
  have hfold : ∀ f ∈ known, GoStrings.equalFold key f = false := by
    intro f hf
    obtain ⟨hslash, hdollar⟩ := hother f (hknown hf)
    rw [GoStrings.equalFold, decide_eq_false_iff_not]
    intro heq
    have hheads := congrArg List.head? heq
    rw [List.head?_map, List.head?_map] at hheads
    rcases hhead with h | h
    · exact hslash (by rw [← hheads, h]; decide +kernel)
    · exact hdollar (by rw [← hheads, h]; decide +kernel)
  have hnot : key ∉ known := fun hmem => by simpa [GoStrings.equalFold] using hfold key hmem
  rw [fieldOf, if_neg hnot, List.find?_eq_none]
  simpa using hfold

/-- A strict decoder has a complaint about a key that names no field. -/
theorem decodeStruct_unknown (hf : f ∈ fields) (hkey : fieldOf known f.1 = none) :
    decodeStruct d true known value fields ≠ none := by
  induction fields with
  | nil => cases hf
  | cons g rest ih =>
    rw [decodeStruct, Ne, Option.or_eq_none_iff]
    rintro ⟨hg, hrest⟩
    rcases List.mem_cons.1 hf with rfl | hmem
    · simp [hkey] at hg
    · exact ih hmem hrest

theorem block_refused {top : List (String × Json)} {field key : String}
    (hknown : known ⊆ blockFields) (hmem : key ∈ blockKeys top field)
    (hkey : isAnnotationKey key = true) : rejectUnknownSubObjectFields d top field known ≠ none := by
  unfold blockKeys at hmem
  unfold rejectUnknownSubObjectFields
  cases hraw : raw top field with
  | none => simp [hraw] at hmem
  | some v =>
    cases v with
    | obj fields =>
      simp only [hraw] at hmem
      obtain ⟨f, hf, rfl⟩ := List.mem_map.mp hmem
      have hstrict : decodeBlock d true field known (.obj fields) ≠ none :=
        decodeStruct_unknown hf (fieldOf_note hkey hknown)
      intro hnone
      exact hstrict (Option.map_eq_none_iff.mp hnone)
    | _ => simp [hraw] at hmem

/-- **A vetted document loads exactly where neither of the two blocks holds a comment.** -/
theorem loadPolicy_of_vetPolicy (d : Decoder P) (policyPath data : String)
    (hvet : vetPolicy d data = none) :
    (∃ p, loadPolicy d policyPath data = .ok p) ↔ ∀ top, document d data = .ok top →
      ∀ key ∈ blockKeys top "compute" ++ blockKeys top "trusted_binaries",
        isAnnotationKey key = false := by
  obtain ⟨top, hdoc, hcompute, htrusted, hdecode, hvalid⟩ := document_of_vetted hvet
  constructor
  · rintro ⟨p, hp⟩ top' hdoc' key hkey
    cases hdoc.symm.trans hdoc'
    rw [loadPolicy, hdoc] at hp
    simp only [hdecode] at hp
    split at hp
    · cases hp
    next hnone =>
    rw [Option.or_eq_none_iff, Option.or_eq_none_iff] at hnone
    rw [← Bool.not_eq_true]
    intro hann
    rcases List.mem_append.mp hkey with hmem | hmem
    · exact block_refused (List.subset_append_left _ _) hmem hann hnone.1.1
    · exact block_refused (List.subset_append_right _ _) hmem hann hnone.1.2
  · intro hplain
    have hkeys := hplain top hdoc
    have h₁ := block_accepted rfl (by decide) hdecode hcompute fun key hkey =>
      hkeys key (List.mem_append_left _ hkey)
    have h₂ := block_accepted rfl (by decide) hdecode htrusted fun key hkey =>
      hkeys key (List.mem_append_right _ hkey)
    refine ⟨d.policy top, ?_⟩
    rw [loadPolicy, hdoc]
    simp [hdecode, h₁, h₂, hvalid]

end Decode

def plainText : String := "\x7b\"compute\":\x7b\"maxTurns\":1\x7d\x7d"

def commentedText : String := "\x7b\"compute\":\x7b\"//\":\"note\"\x7d\x7d"

/-- Reads the two documents, the second with a comment in its `compute` block; all values are in
order. -/
def smallDecoder : Decoder Unit where
  parse data :=
    if data = plainText then .ok (.obj [("compute", .obj [("maxTurns", .num "1")])])
    else if data = commentedText then .ok (.obj [("compute", .obj [("//", .str "note")])])
    else .error "unexpected end of JSON input"
  mismatch _ := "json: cannot unmarshal"
  value _ _ := none
  policy _ := ()
  rules _ := []
  validatePolicy _ := none
  quote s := "\"" ++ s ++ "\""

theorem commented_block_is_refused :
    vetPolicy smallDecoder commentedText = none ∧
      loadPolicy smallDecoder "p.json" commentedText =
        .error "invalid hitl policy \"p.json\": compute: json: unknown field \"//\"" := by
  decide

theorem plain_block_loads :
    vetPolicy smallDecoder plainText = none ∧
      ∃ p, loadPolicy smallDecoder "p.json" plainText = .ok p := by
  have hvet : vetPolicy smallDecoder plainText = none := by decide
  refine ⟨hvet, (loadPolicy_of_vetPolicy smallDecoder "p.json" plainText hvet).mpr ?_⟩
  intro top htop
  cases htop
  decide

end Contenox.Hitl
