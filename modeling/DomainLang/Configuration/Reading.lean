import DomainLang.Configuration
import DomainLang.Yaml.Document

/-!
# Configurations as YAML

A configuration is written as a mapping from names of settings to their values.
Names that are no setting are ignored, a setting may be given once, and an absent
one has its default. An empty document is an empty mapping.
-/

namespace DomainLang
namespace Yaml.Node

/-- The entries of a mapping by the texts of their keys. An absent node has none. -/
def entries? : Node → Option (List (String × Node))
  | mapping entries => entries.mapM fun (key, value) => do return (← key.text?, value)
  | scalar "" true => some []
  | scalar _ _ | sequence _ => none

/-- The value of a setting among entries; none when it is given more than once. -/
def setting? {α : Type} (name : String) (fallback : α) (value? : Node → Option α)
    (entries : List (String × Node)) : Option α :=
  match entries.filter (fun (key, _) => key == name) with
  | [] => some fallback
  | [(_, node)] => value? node
  | _ => none

end Yaml.Node

open Yaml (Node)

/-- The inference settings that a node holds. -/
def InferenceSettings.ofNode? (node : Node) : Option InferenceSettings := do
  let entries ← node.entries?
  let defaults : InferenceSettings := {}
  return {
    temporalProperties :=
      ← Node.setting? "temporalProperties" defaults.temporalProperties Node.bool? entries
    serviceCriteria :=
      ← Node.setting? "serviceCriteria" defaults.serviceCriteria Node.bool? entries }

namespace Configuration

/-- The depth that a node holds. -/
def depthOfNode? (node : Node) : Option UInt32 := do
  let number ← node.number?
  if number < UInt32.size then some number.toUInt32 else none

/-- The settings that a node holds. -/
def ofNode? (node : Node) : Option Configuration := do
  let entries ← node.entries?
  let defaults : Configuration := {}
  return {
    apiVersion := ← Node.setting? "apiVersion" defaults.apiVersion Node.text? entries
    kind := ← Node.setting? "kind" defaults.kind Node.text? entries
    warningsAsErrors :=
      ← Node.setting? "warningsAsErrors" defaults.warningsAsErrors Node.bool? entries
    inference :=
      ← Node.setting? "inference" defaults.inference InferenceSettings.ofNode? entries
    maxMacroDepth := ← Node.setting? "maxMacroDepth" defaults.maxMacroDepth depthOfNode? entries
    reportUnreferencedPrivate :=
      ← Node.setting? "reportUnreferencedPrivate" defaults.reportUnreferencedPrivate
        Node.bool? entries
    sourceExtension :=
      ← Node.setting? "sourceExtension" defaults.sourceExtension Node.text? entries }

/-- The checked configuration that a YAML text holds. -/
def read (text : String) : Except ConfigurationError Configuration :=
  match (Yaml.parse? text).bind ofNode? with
  | none => .error .malformed
  | some configuration => configuration.check

end Configuration
end DomainLang
