import DomainLang.Yaml.Node
import DomainLang.Yaml.Token

/-!
# YAML documents

A text holds one document, or none, which is an absent node. An end mark may follow a
document but not open one. Functions that build nodes take a bound on their steps; thrice
the number of tokens is one.
-/

namespace DomainLang.Yaml

/-- Where a node stands: between brackets, in a block, or as a key or value of a block
mapping, whose items need no indentation of their own. -/
inductive Context where
  | flow
  | block
  | entry
  deriving DecidableEq

/-- Whether a token stands where the node of a block sequence is absent. -/
def Token.endsItem : Token → Bool
  | .dash | .blockEnd => true
  | _ => false

/-- Whether a token stands where the node of a block mapping is absent. -/
def Token.endsEntry : Token → Bool
  | .key | .value | .blockEnd => true
  | _ => false

/-- Whether a token stands where the value of a mapping between brackets is absent. -/
def Token.endsFlowEntry : Token → Bool
  | .comma | .flowMappingEnd => true
  | _ => false

/-- Whether a token stands where the value of a pair in a sequence is absent. -/
def Token.endsFlowItem : Token → Bool
  | .comma | .flowSequenceEnd => true
  | _ => false

/-- The tokens after the comma that separates two parts of a collection. -/
def afterComma? (isFirst : Bool) : List Token → Option (List Token)
  | .comma :: rest => if isFirst then some (.comma :: rest) else some rest
  | tokens => if isFirst then some tokens else none

namespace Node

mutual

/-- The node that starts here, and the tokens after it. -/
def ofTokens? : (bound : Nat) → Context → List Token → Option (Node × List Token)
  | 0, _, _ => none
  | bound + 1, context, tokens =>
    match tokens with
    | .scalar text isPlain :: rest => some (.scalar text isPlain, rest)
    | .flowSequenceStart :: rest => do
      let (items, rest) ← flowItems? bound true rest
      return (.sequence items, rest)
    | .flowMappingStart :: rest => do
      let (entries, rest) ← flowEntries? bound true rest
      return (.mapping entries, rest)
    | .blockSequenceStart :: rest => do
      guard (context ≠ .flow)
      let (items, rest) ← blockItems? bound rest
      return (.sequence items, rest)
    | .blockMappingStart :: rest => do
      guard (context ≠ .flow)
      let (entries, rest) ← blockEntries? bound rest
      return (.mapping entries, rest)
    | .dash :: rest => do
      guard (context = .entry)
      let (items, rest) ← entryItems? bound (.dash :: rest)
      return (.sequence items, rest)
    | _ => none

/-- The node that starts here, absent before a token that `isAbsent` names. -/
def optionalOfTokens? : (bound : Nat) → Context → (isAbsent : Token → Bool) → List Token →
    Option (Node × List Token)
  | 0, _, _, _ => none
  | bound + 1, context, isAbsent, tokens =>
    if tokens.head?.any isAbsent then some (.empty, tokens) else ofTokens? bound context tokens

/-- The items of a block sequence up to and with its end. -/
def blockItems? : (bound : Nat) → List Token → Option (List Node × List Token)
  | 0, _ => none
  | bound + 1, tokens =>
    match tokens with
    | .dash :: rest => do
      let (item, rest) ← optionalOfTokens? bound .block Token.endsItem rest
      let (items, rest) ← blockItems? bound rest
      return (item :: items, rest)
    | .blockEnd :: rest => some ([], rest)
    | _ => none

/-- The items of a sequence in an entry of a block mapping, up to the next entry. -/
def entryItems? : (bound : Nat) → List Token → Option (List Node × List Token)
  | 0, _ => none
  | bound + 1, tokens =>
    match tokens with
    | .dash :: rest => do
      let (item, rest) ← optionalOfTokens? bound .block
        (fun token => token.endsItem || token.endsEntry) rest
      let (items, rest) ← entryItems? bound rest
      return (item :: items, rest)
    | _ => some ([], tokens)

/-- The entries of a block mapping up to and with its end. -/
def blockEntries? : (bound : Nat) → List Token → Option (List (Node × Node) × List Token)
  | 0, _ => none
  | bound + 1, tokens =>
    match tokens with
    | .key :: rest => do
      let (key, rest) ← optionalOfTokens? bound .entry Token.endsEntry rest
      let (value, rest) ← match rest with
        | .value :: rest => optionalOfTokens? bound .entry Token.endsEntry rest
        | _ => some (.empty, rest)
      let (entries, rest) ← blockEntries? bound rest
      return ((key, value) :: entries, rest)
    | .blockEnd :: rest => some ([], rest)
    | _ => none

/-- The entries of a mapping between brackets up to and with the closing one. An entry
that is not announced as a key has no value. -/
def flowEntries? : (bound : Nat) → (isFirst : Bool) → List Token →
    Option (List (Node × Node) × List Token)
  | 0, _, _ => none
  | bound + 1, isFirst, tokens =>
    match tokens with
    | .flowMappingEnd :: rest => some ([], rest)
    | _ => do
      match ← afterComma? isFirst tokens with
      | .flowMappingEnd :: rest => return ([], rest)
      | .key :: rest =>
        let (key, rest) ← optionalOfTokens? bound .flow
          (fun token => token = .value || token.endsFlowEntry) rest
        let (value, rest) ← match rest with
          | .value :: rest => optionalOfTokens? bound .flow Token.endsFlowEntry rest
          | _ => some (.empty, rest)
        let (entries, rest) ← flowEntries? bound false rest
        return ((key, value) :: entries, rest)
      | rest =>
        let (key, rest) ← ofTokens? bound .flow rest
        let (entries, rest) ← flowEntries? bound false rest
        return ((key, .empty) :: entries, rest)

/-- The items of a sequence between brackets up to and with the closing one. An announced
key makes a mapping of one entry; a mark in place of that key is passed over. -/
def flowItems? : (bound : Nat) → (isFirst : Bool) → List Token →
    Option (List Node × List Token)
  | 0, _, _ => none
  | bound + 1, isFirst, tokens =>
    match tokens with
    | .flowSequenceEnd :: rest => some ([], rest)
    | _ => do
      match ← afterComma? isFirst tokens with
      | .flowSequenceEnd :: rest => return ([], rest)
      | .key :: rest =>
        let (key, rest) ← match rest with
          | .value :: rest | .comma :: rest | .flowSequenceEnd :: rest => some (.empty, rest)
          | _ => ofTokens? bound .flow rest
        let (value, rest) ← match rest with
          | .value :: rest => optionalOfTokens? bound .flow Token.endsFlowItem rest
          | _ => some (.empty, rest)
        let (items, rest) ← flowItems? bound false rest
        return (.mapping [(key, value)] :: items, rest)
      | rest =>
        let (item, rest) ← ofTokens? bound .flow rest
        let (items, rest) ← flowItems? bound false rest
        return (item :: items, rest)

end

/-- A bound on the steps that the nodes of some tokens take. -/
def steps (tokens : List Token) : Nat :=
  3 * tokens.length + 3

/-- The content of a document after its start mark, which may be absent. -/
def ofMarked? (tokens : List Token) : Option (Node × List Token) :=
  match tokens with
  | [] | .documentStart :: _ | .documentEnd :: _ => some (.empty, tokens)
  | _ => ofTokens? (steps tokens) .block tokens

/-- The one document of some tokens. -/
def ofDocument? (tokens : List Token) : Option Node := do
  let (node, rest) ← match tokens with
    | [] => some (.empty, [])
    | .documentStart :: rest => ofMarked? rest
    | _ => ofTokens? (steps tokens) .block tokens
  if rest.all (· = .documentEnd) then some node else none

end Node

/-- The one document of a text. -/
def parse? (text : String) : Option Node :=
  (Token.ofText? text).bind Node.ofDocument?

end DomainLang.Yaml
