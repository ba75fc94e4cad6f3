import Stillflow.Core.ProductionNodes

/-! The closed node registry, declarative composite packages and their expansion. -/

namespace Stillflow.Core

open Lib.Fallible

structure NodeRegistry where
  definitions : List NodeDefinition

/-- Definitions are ordered by type id, then by config version. -/
def definitionLe (left right : NodeDefinition) : Bool :=
  left.typeId < right.typeId ||
    (left.typeId == right.typeId && left.configVersion ≤ right.configVersion)

def sortDefinitions (definitions : List NodeDefinition) : List NodeDefinition :=
  definitions.insertionSort fun left right => definitionLe left right = true

theorem sortDefinitions_perm (definitions : List NodeDefinition) :
    (sortDefinitions definitions).Perm definitions :=
  List.perm_insertionSort _ _

/-- The first definition that shares its type id and version with the next one. -/
def adjacentDuplicate : List NodeDefinition → Option NodeDefinition
  | left :: right :: rest =>
    if left.typeId = right.typeId ∧ left.configVersion = right.configVersion then some left
    else adjacentDuplicate (right :: rest)
  | _ => none

namespace NodeRegistry

def fromDefinitions (definitions : List NodeDefinition) : Except NodeGraphError NodeRegistry :=
  match adjacentDuplicate (sortDefinitions definitions) with
  | some duplicate => .error (.new .invalidConfig none ("node type " ++ duplicate.typeId ++
      " is registered more than once for config version " ++
      toString duplicate.configVersion.toNat))
  | none => .ok ⟨sortDefinitions definitions⟩

def new (serde : Serde) : NodeRegistry := ⟨sortDefinitions (productionDefinitions serde)⟩

theorem new_definitions (serde : Serde) :
    (new serde).definitions = sortDefinitions (productionDefinitions serde) := by
  simp only [new]

/-- Binary search over the sorted, duplicate-free definitions. -/
def lookup (registry : NodeRegistry) (typeId : String) (configVersion : UInt16) :
    Except NodeGraphError NodeDefinition :=
  match registry.definitions.find? fun definition =>
    definition.typeId == typeId && definition.configVersion == configVersion with
  | some definition => .ok definition
  | none =>
    if registry.definitions.any (·.typeId == typeId) then
      .error (.new .unsupportedConfigVersion none "node config version is not supported")
    else .error (.new .unknownNodeType none "node type is not registered")

theorem lookup_eq_ok {registry : NodeRegistry} {typeId : String} {configVersion : UInt16}
    {definition : NodeDefinition} (h : registry.lookup typeId configVersion = .ok definition) :
    definition ∈ registry.definitions := by
  unfold lookup at h
  split at h
  · rename_i found hfound
    cases h
    exact List.mem_of_find?_eq_some hfound
  · split_ifs at h

end NodeRegistry

def admissibleOperators : List String :=
  ["stillflow.node.select", "stillflow.node.filter", "stillflow.node.rename",
    "stillflow.node.trim", "stillflow.node.cast", "stillflow.node.replace-literal",
    "stillflow.node.fill-null", "stillflow.node.drop-column", "stillflow.node.derive-column"]

def maxPackageBytes : Nat := 16 * 1024

def maxPackageOperators : Nat := 8

def maxExpansionSteps : Nat := 4

/-- A package document. `documentBytes` is the size of its JSON text without the digest, which the
descriptive members that no other check reads contribute to. -/
structure NodePackage where
  packageFormat : UInt16
  ownerSpace : String
  name : String
  version : String
  contentDigest : String
  dependsOn : List String
  operators : List String
  typeId : String
  configVersion : UInt16
  configSchema : ConfigSchema
  expansion : List CompositeStep
  documentBytes : Nat

def validSemver (version : String) : Bool :=
  let parts := version.toList.splitOn '.'
  parts.length == 3 &&
    parts.all fun part => !part.isEmpty && decide (part.length ≤ 6) && part.all Char.isDigit

def validOwnerSpace (ownerSpace : String) : Bool :=
  ownerSpace.toList.head?.any Char.isLower && decide (byteLen ownerSpace ≤ 64) &&
    ownerSpace.toList.all fun c => c.isLower || c.isDigit || c == '-'

def validatePackage (package : NodePackage) : Except NodeGraphError Unit := do
  let invalid := fun message => NodeGraphError.new .invalidConfig none message
  require (package.packageFormat = 1) (invalid "package format is not supported")
  require (package.documentBytes ≤ maxPackageBytes)
    (invalid "package document exceeds the frozen byte bound")
  require (validOwnerSpace package.ownerSpace = true) (invalid "package namespace is invalid")
  require (validSemver package.version = true) (invalid "package version is not strict semver")
  require (package.dependsOn = []) (invalid "package dependencies are not authorized")
  require (package.operators.length ≤ maxPackageOperators)
    (invalid "package operator list exceeds the frozen bound")
  package.operators.forM fun operator => require (operator ∈ admissibleOperators)
    (invalid ("package operator " ++ operator ++ " is not admissible"))
  require (package.typeId = "stillflow.composite." ++ package.name)
    (invalid "package type id must be stillflow.composite.<name>")
  require (package.configVersion = 1) (invalid "package config version must be 1")
  require (package.expansion ≠ [] ∧ package.expansion.length ≤ maxExpansionSteps)
    (invalid "package expansion exceeds the frozen step bound")
  package.expansion.forM fun step => require (step.operator ∈ package.operators)
    (invalid ("expansion step targets operator " ++ step.operator ++
      " outside the package's declared operators"))
  require (byteLen package.contentDigest = 71 ∧
      "sha256-".toList.isPrefixOf package.contentDigest.toList = true)
    (invalid "package content digest must be sha256-<64 hex>")
  require (package.configSchema.fields.filter (·.name == "column") = [⟨"column", .columnId, true⟩])
    (invalid "composite packages require one required `column` (columnId) field")

def packageDefinition (package : NodePackage) : NodeDefinition where
  typeId := package.typeId
  configVersion := package.configVersion
  configSchema := package.configSchema
  inputPorts := ["in"]
  outputPorts := ["out"]
  role := .transform
  kind := .composite package.expansion

/-- The digest a package version was first deployed with. -/
abbrev SeenVersions := List ((String × String × String) × String)

def deployPackage (state : SeenVersions × List NodeDefinition) (package : NodePackage) :
    Except NodeGraphError (SeenVersions × List NodeDefinition) := do
  validatePackage package
  let key := (package.ownerSpace, package.name, package.version)
  let existing := (state.1.find? (·.1 == key)).map (·.2)
  require (∀ digest ∈ existing, digest = package.contentDigest)
    (.new .invalidConfig none ("package content changed for " ++ package.ownerSpace ++ "/" ++
      package.name ++ "/" ++ package.version ++ "@" ++ existing.getD ""))
  return ((key, package.contentDigest) :: state.1, state.2 ++ [packageDefinition package])

def NodeRegistry.withPackages (registry : NodeRegistry) (packages : List NodePackage) :
    Except NodeGraphError NodeRegistry := do
  let (_, definitions) ← packages.foldlM deployPackage ([], [])
  fromDefinitions (registry.definitions ++ definitions)

/-- The frozen first package: trim, then empty string to null, on one text column. -/
def trimCleanPackage : NodePackage where
  packageFormat := 1
  ownerSpace := "ops-clean"
  name := "trim-clean"
  version := "1.0.0"
  contentDigest := "sha256-997734d5099ca8d632aaeb652e59fa2b167da7c347b32b7df451365ace367e60"
  dependsOn := []
  operators := ["stillflow.node.trim", "stillflow.node.replace-literal"]
  typeId := "stillflow.composite.trim-clean"
  configVersion := 1
  configSchema := ⟨[⟨"column", .columnId, true⟩]⟩
  expansion := [
    ⟨"stillflow.node.trim", {("column", .identity)}⟩,
    ⟨"stillflow.node.replace-literal", {("column", .identity),
      ("from", .literal (.object [("kind", .string "utf8"), ("value", .string "")])),
      ("to", .literal (.object [("kind", .string "null")]))}⟩]
  documentBytes := 849

example : validatePackage trimCleanPackage = .ok () := by rfl

/-- The registries a deployment can hold: the production one, extended by packages, or rebuilt from
definitions of such registries. -/
inductive Registered (serde : Serde) : NodeRegistry → Prop
  | new : Registered serde (.new serde)
  | withPackages {registry registry' : NodeRegistry} {packages : List NodePackage} :
      Registered serde registry → registry.withPackages packages = .ok registry' →
      Registered serde registry'
  | fromDefinitions {left right registry : NodeRegistry} {definitions : List NodeDefinition} :
      Registered serde left → Registered serde right →
      definitions ⊆ left.definitions ++ right.definitions →
      NodeRegistry.fromDefinitions definitions = .ok registry → Registered serde registry

end Stillflow.Core
