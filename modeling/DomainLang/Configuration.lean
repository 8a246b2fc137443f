import DomainLang.Program.Workspace

/-!
# Configurations

Every setting has a default. A configuration that is read from a file is checked:
it names the version and the kind of document it is, allows at least one level of
expansion, and its source extension is a file name suffix.
-/

namespace DomainLang

/-- Which inferences run. -/
structure InferenceSettings where
  temporalProperties : Bool := true
  serviceCriteria : Bool := true
  deriving DecidableEq, Repr, Inhabited

/-- The settings of a compilation. -/
structure Configuration where
  apiVersion : String := "klass/v1"
  kind : String := "CompilerConfig"
  /-- Whether warnings count as errors. -/
  warningsAsErrors : Bool := false
  inference : InferenceSettings := {}
  /-- How deep expansions may nest. -/
  maxMacroDepth : UInt32 := 8
  /-- Whether to warn about private properties that nothing refers to. -/
  reportUnreferencedPrivate : Bool := true
  /-- The suffix of the names of source files, with or without leading dots. -/
  sourceExtension : String := "klass.json"
  deriving DecidableEq, Repr, Inhabited

/-- What can be wrong with a configuration. -/
inductive ConfigurationError where
  | unreadable
  | malformed
  | apiVersion (found : String)
  | kind (found : String)
  | value (field reason : String)
  deriving DecidableEq, Repr, Inhabited

namespace ConfigurationError

/-- The wording of an error in the settings themselves. -/
def message : ConfigurationError → String
  | unreadable => "failed to read config file"
  | malformed => "failed to parse config YAML"
  | apiVersion found => s!"invalid apiVersion: expected 'klass/v1', got '{found}'"
  | kind found => s!"invalid kind: expected 'CompilerConfig', got '{found}'"
  | value field reason => s!"invalid value for '{field}': {reason}"

end ConfigurationError

instance : Codec InferenceSettings where
  encode settings := .object [("temporalProperties", encode settings.temporalProperties),
    ("serviceCriteria", encode settings.serviceCriteria)]
  decode json := do
    let [temporalProperties, serviceCriteria] ←
      json.leadingComponents? ["temporalProperties", "serviceCriteria"] | none
    return ⟨← Codec.withDefault true temporalProperties, ← Codec.withDefault true serviceCriteria⟩

namespace Configuration

/-- The names of the settings. -/
def fieldNames : List String :=
  ["apiVersion", "kind", "warningsAsErrors", "inference", "maxMacroDepth",
    "reportUnreferencedPrivate", "sourceExtension"]

instance : Codec Configuration where
  encode configuration := .object [("apiVersion", encode configuration.apiVersion),
    ("kind", encode configuration.kind),
    ("warningsAsErrors", encode configuration.warningsAsErrors),
    ("inference", encode configuration.inference),
    ("maxMacroDepth", encode configuration.maxMacroDepth),
    ("reportUnreferencedPrivate", encode configuration.reportUnreferencedPrivate),
    ("sourceExtension", encode configuration.sourceExtension)]
  decode json := do
    let [apiVersion, kind, warningsAsErrors, inference, maxMacroDepth,
        reportUnreferencedPrivate, sourceExtension] ←
      json.leadingComponents? fieldNames | none
    let defaults : Configuration := {}
    return {
      apiVersion := ← Codec.withDefault defaults.apiVersion apiVersion
      kind := ← Codec.withDefault defaults.kind kind
      warningsAsErrors := ← Codec.withDefault defaults.warningsAsErrors warningsAsErrors
      inference := ← Codec.withDefault defaults.inference inference
      maxMacroDepth := ← Codec.withDefault defaults.maxMacroDepth maxMacroDepth
      reportUnreferencedPrivate :=
        ← Codec.withDefault defaults.reportUnreferencedPrivate reportUnreferencedPrivate
      sourceExtension := ← Codec.withDefault defaults.sourceExtension sourceExtension }

/-- The source extension without leading dots. -/
def extension (configuration : Configuration) : List Char :=
  configuration.sourceExtension.toList.dropWhile (· = '.')

/-- The suffix that the names of source files have. -/
def sourceSuffix (configuration : Configuration) : String :=
  String.ofList ('.' :: configuration.extension)

/-- Whether the source extension can end a file name. -/
def hasSuffix (configuration : Configuration) : Bool :=
  !configuration.extension.isEmpty && configuration.extension.all fun character =>
    character ≠ '/' && character ≠ '\\'

/-- The configuration itself, when its settings are allowed. -/
def check (configuration : Configuration) : Except ConfigurationError Configuration :=
  if configuration.apiVersion ≠ "klass/v1" then .error (.apiVersion configuration.apiVersion)
  else if configuration.kind ≠ "CompilerConfig" then .error (.kind configuration.kind)
  else if configuration.maxMacroDepth = 0 then
    .error (.value "maxMacroDepth" "must be at least 1")
  else if !configuration.hasSuffix then
    .error (.value "sourceExtension"
      ("'" ++ configuration.sourceExtension ++ "' is not a file name suffix"))
  else .ok configuration

/-- What the analyses are told. -/
def options (configuration : Configuration) : Options where
  temporalProperties := configuration.inference.temporalProperties
  serviceCriteria := configuration.inference.serviceCriteria
  maxExpansionDepth := configuration.maxMacroDepth.toNat
  reportUnreferencedPrivate := configuration.reportUnreferencedPrivate

end Configuration
end DomainLang
