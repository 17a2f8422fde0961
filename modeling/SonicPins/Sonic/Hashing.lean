import SonicPins.P4rtApp.P4InfoReconcile
import SonicPins.Sonic.Annotations

/-! The hash settings that a P4Info asks for in the annotations of its actions. -/
namespace SonicPins.Sonic
open Lib Pdpi P4rtApp

variable {configs : List HashPacketFieldConfig}

def hashFieldLabel : String := "sai_native_hash_field"

def fieldKeyMap : List (String × String) :=
  [("compute_ecmp_hash_ipv4","ecmp_hash_ipv4"),("compute_ecmp_hash_ipv6","ecmp_hash_ipv6"),
    ("compute_lag_hash_ipv4","lag_hash_ipv4"),("compute_lag_hash_ipv6","lag_hash_ipv6")]

def switchTableHashPacketFieldConfigKey (hashKey : String) : StatusOr String :=
  match fieldKeyMap.lookup hashKey with
  | some key => .ok key
  | none => .error (invalidArgument ("Unsupported hash field configuration '" ++ hashKey ++ "'."))

def hashFieldTranslationMap : List (String × String) :=
  [("SAI_NATIVE_HASH_FIELD_SRC_IPV4","src_ip"),("SAI_NATIVE_HASH_FIELD_DST_IPV4","dst_ip"),
    ("SAI_NATIVE_HASH_FIELD_SRC_IPV6","src_ip"),("SAI_NATIVE_HASH_FIELD_DST_IPV6","dst_ip"),
    ("SAI_NATIVE_HASH_FIELD_L4_SRC_PORT","l4_src_port"),("SAI_NATIVE_HASH_FIELD_L4_DST_PORT","l4_dst_port"),
    ("SAI_NATIVE_HASH_FIELD_IPV6_FLOW_LABEL","ipv6_flow_label")]

def appDbFieldName (field : String) : StatusOr String :=
  match hashFieldTranslationMap.lookup field with
  | some name => .ok name
  | none => .error (invalidArgument ("Cannot process unknown hash field: '" ++ field ++ "'"))

/-- Insertion into an ordered set. -/
def insertField (field : String) (fields : List String) : List String :=
  if field ∈ fields then fields else fields.orderedInsert (· ≤ ·) field

def addHashField (config : HashPacketFieldConfig) (hashArgs : List String) : StatusOr HashPacketFieldConfig :=
  match hashArgs with
  | [arg] => (appDbFieldName arg).map fun field => { config with fields := insertField field config.fields }
  | _ => .error (invalidArgument ("@" ++ hashFieldLabel ++ " annotations may only contain one argument. Found invalid " ++
      "annotation body: '" ++ ", ".intercalate hashArgs ++ "'"))

def hashPacketFieldConfigFromAction (actionName : String) (argLists : List (List String)) : StatusOr HashPacketFieldConfig := do
  let switchTableKey ← switchTableHashPacketFieldConfigKey actionName
  argLists.foldlM addHashField { key := actionName,switchTableKey := switchTableKey }

/-- Insertion into a set that is ordered by the keys; a config whose key is there is dropped. -/
def insertConfig (c : HashPacketFieldConfig) : List HashPacketFieldConfig → List HashPacketFieldConfig
  | [] => [c]
  | d :: ds => if c.key < d.key then c :: d :: ds else if c.key = d.key then d :: ds else d :: insertConfig c ds

def addHashPacketFieldConfig (configs : List HashPacketFieldConfig) (action : String × IrActionDefinition) :
    StatusOr (List HashPacketFieldConfig) :=
  match getAllAnnotationsAsArgList hashFieldLabel action.2.preamble.annotations with
  | .error _ => .ok configs
  | .ok [] => .ok configs
  | .ok argLists => (hashPacketFieldConfigFromAction action.1 argLists).map fun config => insertConfig config configs

def extractHashPacketFieldConfigs (info : IrP4Info) : StatusOr (List HashPacketFieldConfig) :=
  info.actionsByName.foldlM addHashPacketFieldConfig []

private theorem mem_insertConfig {c d : HashPacketFieldConfig} (h : d ∈ insertConfig c configs) : d = c ∨ d ∈ configs := by
  induction configs with
  | nil => exact .inl (List.mem_singleton.mp h)
  | cons e es ih =>
    unfold insertConfig at h
    split_ifs at h with hlt heq
    · exact List.mem_cons.mp h
    · exact .inr h
    · rcases List.mem_cons.mp h with rfl | h
      · exact .inr List.mem_cons_self
      · exact (ih h).imp_right (List.mem_cons_of_mem e)

private theorem pairwise_insertConfig (c : HashPacketFieldConfig)
    (h : configs.Pairwise fun a b => a.key < b.key) : (insertConfig c configs).Pairwise fun a b => a.key < b.key := by
  induction configs with
  | nil => exact List.pairwise_singleton _ _
  | cons d ds ih =>
    obtain ⟨hd,hds⟩ := List.pairwise_cons.mp h
    unfold insertConfig
    split_ifs with hlt heq
    · refine List.pairwise_cons.mpr ⟨fun e he => ?_,h⟩
      rcases List.mem_cons.mp he with rfl | he
      · exact hlt
      · exact hlt.trans (hd e he)
    · exact h
    · refine List.pairwise_cons.mpr ⟨fun e he => ?_,ih hds⟩
      rcases mem_insertConfig he with rfl | he
      · exact lt_of_le_of_ne (not_lt.mp hlt) (Ne.symm heq)
      · exact hd e he

theorem pairwise_extractHashPacketFieldConfigs {info : IrP4Info}
    (h : extractHashPacketFieldConfigs info = .ok configs) : configs.Pairwise fun a b => a.key < b.key := by
  have hrun : ∀ (actions : List (String × IrActionDefinition)) (before after : List HashPacketFieldConfig),
      before.Pairwise (fun a b => a.key < b.key) → actions.foldlM addHashPacketFieldConfig before = .ok after →
        after.Pairwise fun a b => a.key < b.key := by
    intro actions
    induction actions with
    | nil =>
      intro before after hbefore hfold
      cases hfold
      exact hbefore
    | cons action actions ih =>
      intro before after hbefore hfold
      rw [List.foldlM_cons] at hfold
      obtain ⟨next,hnext,hfold⟩ := bind_eq_ok.mp hfold
      refine ih next after ?_ hfold
      unfold addHashPacketFieldConfig at hnext
      split at hnext
      · cases hnext
        exact hbefore
      · cases hnext
        exact hbefore
      · obtain ⟨config,-,rfl⟩ := map_eq_ok.mp hnext
        exact pairwise_insertConfig config hbefore
  exact hrun _ [] configs List.Pairwise.nil h

/-- An action is marked by any annotation of the form `sai_hash_*`. -/
def actionHasHashingConfig (action : IrActionDefinition) : Bool :=
  (getAllAnnotations action.preamble.annotations).any fun a => (strDropPrefix "sai_hash_" a.1).isSome

def availableHashAlgorithms : List (String × String) :=
  [("SAI_HASH_ALGORITHM_CRC","crc"),("SAI_HASH_ALGORITHM_XOR","xor"),("SAI_HASH_ALGORITHM_RANDOM","random"),
    ("SAI_HASH_ALGORITHM_CRC_32LO","crc_32lo"),("SAI_HASH_ALGORITHM_CRC_32HI","crc_32hi"),
    ("SAI_HASH_ALGORITHM_CRC_CCITT","crc_ccitt"),("SAI_HASH_ALGORITHM_CRC_XOR","crc_xor")]

def appDbHashAlgorithm (p4Algorithm : String) : StatusOr String :=
  match availableHashAlgorithms.lookup p4Algorithm with
  | some algorithm => .ok algorithm
  | none => .error (invalidArgument ("[P4RT App] Unsupported hash algorithm '" ++ p4Algorithm ++ "'."))

def insertHashParamConfig (label hashType value : String) (configs : HashParamConfigs) : StatusOr HashParamConfigs :=
  if (strDropPrefix "sai_hash_" label).isNone then .ok configs
  else if label ≠ "sai_hash_seed" ∧ label ≠ "sai_hash_offset" ∧ label ≠ "sai_hash_algorithm" then
    .error (invalidArgument ("Invalid sai_hash_* annotation '@" ++ label ++ "'"))
  else
    let key := hashType ++ String.ofList (label.toList.drop 3)
    if (configs.lookup key).isSome then
      .error (invalidArgument ("Found duplicate '" ++ hashType ++ "' hash config annotation '@" ++ label ++ "'"))
    else .ok (assign key value configs)

/-- `absl::StrContainsIgnoreCase`. -/
def containsIgnoreCase (text part : String) : Bool := decide ((asciiToLower part).toList <:+: (asciiToLower text).toList)

def addHashParam (fullActionName hashType : String) (configs : HashParamConfigs) (a : String × String) : StatusOr HashParamConfigs := do
  let inAction := " in action '" ++ fullActionName ++ "'"
  if a.1 = "sai_hash_algorithm" then do
    let algorithm ← (appDbHashAlgorithm a.2).mapError fun s =>
      s.annotate (inAction ++ " annotation '@" ++ a.1 ++ "(" ++ a.2 ++ ")'")
    (insertHashParamConfig a.1 hashType algorithm configs).mapError fun s => s.annotate inAction
  else (insertHashParamConfig a.1 hashType a.2 configs).mapError fun s => s.annotate inAction

def updateHashParamConfigsFromAction (configs : HashParamConfigs) (action : IrActionDefinition) : StatusOr HashParamConfigs := do
  let fullActionName := action.preamble.name
  let hashType ←
    if containsIgnoreCase fullActionName "_lag_" then .ok "lag"
    else if containsIgnoreCase fullActionName "_ecmp_" then .ok "ecmp"
    else .error (invalidArgument ("Unsupported hash configuration '" ++ fullActionName ++
      "' name refers to neither '_ecmp_' nor '_lag_'."))
  (getAllAnnotations action.preamble.annotations).foldlM (addHashParam fullActionName hashType) configs

def extractHashParamConfigs (info : IrP4Info) : StatusOr HashParamConfigs :=
  (info.actionsByName.filter fun a => actionHasHashingConfig a.2).foldlM (fun configs a => updateHashParamConfigsFromAction configs a.2) []

end SonicPins.Sonic
