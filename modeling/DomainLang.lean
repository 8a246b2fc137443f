import DomainLang.Json.Access
import DomainLang.Main
import DomainLang.Proofs.Expansion.Nesting
import DomainLang.Proofs.Findings.Repetitions
import DomainLang.Proofs.Hierarchy.Redundancy
import DomainLang.Proofs.Hierarchy.Shadowing
import DomainLang.Proofs.Inference.Adequacy
import DomainLang.Proofs.Inference.Necessity
import DomainLang.Proofs.Json.Model
import DomainLang.Proofs.Links.Failures
import DomainLang.Proofs.Links.Usage
import DomainLang.Proofs.Model.Distinctness
import DomainLang.Proofs.Model.Faithful
import DomainLang.Proofs.Model.ForeignKeys
import DomainLang.Proofs.Model.Keys
import DomainLang.Proofs.Model.NameIndex
import DomainLang.Proofs.Model.Scopes
import DomainLang.Proofs.Places.Hygiene
import DomainLang.Proofs.Positions
import DomainLang.Proofs.Registry.Log
import DomainLang.Proofs.Syntax.Determined
import DomainLang.Proofs.Syntax.Lines
import DomainLang.Proofs.Walks
