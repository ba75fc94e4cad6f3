import Stillflow.Core.NodeTopology

/-! What a deployed registry can resolve, and how many plan nodes a resolved config stands for. -/

namespace Stillflow.Core

open Lib Lib.Fallible List

variable {config : ValidatedNodeConfig} {definition : NodeDefinition} {node : NodeConfig}
  {registry : NodeRegistry}

variable {serde : Serde}

def ValidatedNodeConfig.isComposite : ValidatedNodeConfig → Bool
  | .composite _ => true
  | _ => false

/-- A definition a deployment can hold: a built-in, or a package with a bounded expansion. -/
inductive Deployable (serde : Serde) : NodeDefinition → Prop
  | builtin {definition : NodeDefinition} :
      definition ∈ productionDefinitions serde → Deployable serde definition
  | package {package : NodePackage} : package.expansion ≠ [] →
      package.expansion.length ≤ maxExpansionSteps → Deployable serde (packageDefinition package)

theorem validatePackage_expansion {package : NodePackage} (h : validatePackage package = .ok ()) :
    package.expansion ≠ [] ∧ package.expansion.length ≤ maxExpansionSteps := by
  simp only [validatePackage, bind_eq_ok, exists_unit_iff] at h
  obtain ⟨-, -, -, -, -, -, -, -, -, hexpansion, -⟩ := h
  exact require_eq_ok.mp hexpansion

theorem deployPackages_deployable {packages : List NodePackage}
    {state : SeenVersions × List NodeDefinition}
    (h : packages.foldlM deployPackage ([], []) = .ok state) :
    ∀ definition ∈ state.2, Deployable serde definition := by
  refine foldlM_invariant (fun state => ∀ definition ∈ state.2, Deployable serde definition)
    (fun {state package state'} _ hstate hdeploy => ?_) (by simp) h
  obtain ⟨_, hvalid, hdeploy⟩ := of_bind hdeploy
  obtain ⟨_, _, hdeploy⟩ := of_bind hdeploy
  cases hdeploy
  obtain ⟨hne, hle⟩ := validatePackage_expansion hvalid
  exact forall_mem_append.mpr ⟨hstate, forall_mem_singleton.mpr (.package hne hle)⟩

theorem mem_of_fromDefinitions {definitions : List NodeDefinition}
    (h : NodeRegistry.fromDefinitions definitions = .ok registry)
    (hmem : definition ∈ registry.definitions) : definition ∈ definitions := by
  unfold NodeRegistry.fromDefinitions at h
  split at h
  · cases h
  · cases h
    exact (sortDefinitions_perm _).mem_iff.mp hmem

/-- Every definition of a deployed registry is a built-in or a bounded package. -/
theorem deployable_of_registered (h : Registered serde registry) :
    ∀ definition ∈ registry.definitions, Deployable serde definition := by
  induction h with
  | new =>
    intro definition hmem
    rw [NodeRegistry.new_definitions, (sortDefinitions_perm _).mem_iff] at hmem
    exact .builtin hmem
  | withPackages _ hpackages ih =>
    intro definition hmem
    obtain ⟨state, hstate, hregistry⟩ := of_bind hpackages
    rcases mem_append.mp (mem_of_fromDefinitions hregistry hmem) with hold | hnew
    · exact ih definition hold
    · exact deployPackages_deployable hstate definition hnew
  | fromDefinitions _ _ hsubset hregistry ihleft ihright =>
    intro definition hmem
    rcases mem_append.mp (hsubset (mem_of_fromDefinitions hregistry hmem)) with hleft | hright
    · exact ihleft definition hleft
    · exact ihright definition hright

theorem builtin_not_composite (hdef : definition ∈ productionDefinitions serde) (node : NodeConfig) :
    Yields (definition.validateNodeConfig node) fun config => config.isComposite = false := by
  refine yields_bind fun _ => yields_bind fun _ => ?_
  simp only [productionDefinitions, mem_cons, not_mem_nil, or_false] at hdef
  rcases hdef with rfl | rfl | rfl | rfl | rfl | rfl | rfl | rfl | rfl | rfl | rfl | rfl | rfl
  all_goals
    repeat' first
      | exact yields_pure rfl
      | refine yields_bind fun _ => ?_

theorem eq_output_of_isOutput (hdef : Deployable serde definition)
    (hout : definition.isOutput = true) : definition = OutputNode.definition := by
  cases hdef with
  | builtin hmem =>
    simp only [productionDefinitions, mem_cons, not_mem_nil, or_false] at hmem
    rcases hmem with rfl | rfl | rfl | rfl | rfl | rfl | rfl | rfl | rfl | rfl | rfl | rfl | rfl
    case inr.inr.inr.inr.inr.inr.inr.inr.inr.inr.inr.inr => rfl
    all_goals cases hout
  | package => cases hout

def ValidatedNodeConfig.stepCount : ValidatedNodeConfig → Nat
  | .composite steps => steps.length
  | _ => 1

def NodeDefinition.expansionSize (definition : NodeDefinition) : Nat :=
  (definition.compositeExpansion.map List.length).getD 1

theorem ValidatedNodeConfig.stepCount_of_not_composite (h : config.isComposite = false) :
    config.stepCount = 1 := by
  cases config <;> first | rfl | cases h

theorem builtin_atomic (hdef : definition ∈ productionDefinitions serde) :
    definition.compositeExpansion = none := by
  simp only [productionDefinitions, mem_cons, not_mem_nil, or_false] at hdef
  rcases hdef with rfl | rfl | rfl | rfl | rfl | rfl | rfl | rfl | rfl | rfl | rfl | rfl | rfl
  all_goals rfl

theorem resolveComposite_eq_ok {expansion : List CompositeStep} {configSchema : ConfigSchema}
    (h : resolveComposite serde node expansion configSchema registry = .ok config) :
    ∃ steps, config = .composite steps ∧ steps.length = expansion.length := by
  unfold resolveComposite at h
  split at h
  · cases h
  · obtain ⟨values, -, h⟩ := of_bind h
    obtain ⟨_, -, h⟩ := of_bind h
    obtain ⟨column, -, h⟩ := of_bind h
    obtain ⟨steps, hsteps, h⟩ := of_bind h
    cases h
    refine ⟨steps, rfl, ?_⟩
    rw [length_of_mapM_ok hsteps, length_zipIdx]

theorem outputNode_eq_ok (h : OutputNode.definition.validateNodeConfig node = .ok config) :
    ∃ label, config = .output label := by
  obtain ⟨_, _, h⟩ := of_bind h
  obtain ⟨_, _, h⟩ := of_bind h
  obtain ⟨label, _, h⟩ := of_bind h
  obtain ⟨_, _, h⟩ := of_bind h
  cases h
  exact ⟨label, rfl⟩

theorem resolveConfig_stepCount (hdef : Deployable serde definition)
    (h : resolveConfig serde registry node definition = .ok config) :
    config.stepCount = definition.expansionSize ∧ 0 < config.stepCount := by
  unfold resolveConfig at h
  cases hdef with
  | builtin hmem =>
    rw [builtin_atomic hmem] at h
    have hcount := (builtin_not_composite hmem node config h)
    rw [ValidatedNodeConfig.stepCount_of_not_composite hcount, NodeDefinition.expansionSize,
      builtin_atomic hmem]
    exact ⟨rfl, Nat.one_pos⟩
  | package hne _ =>
    obtain ⟨steps, rfl, hlength⟩ := resolveComposite_eq_ok h
    refine ⟨hlength, ?_⟩
    rw [ValidatedNodeConfig.stepCount, hlength]
    exact length_pos_of_ne_nil hne

theorem resolveConfig_output (hdef : Deployable serde definition)
    (hout : definition.isOutput = true)
    (h : resolveConfig serde registry node definition = .ok config) :
    ∃ label, config = .output label := by
  obtain rfl := eq_output_of_isOutput hdef hout
  exact outputNode_eq_ok h

end Stillflow.Core
