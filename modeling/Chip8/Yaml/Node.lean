import Chip8.Yaml.Token

/-! # Documents

A document as a tree of scalars, sequences and mappings, built from its tokens. A value that is not
written is an empty plain scalar. A text holds one document. This is as much of YAML as preferences
and key scripts are written in: a text with anchors, aliases, tags, directives or block scalars is
no document here.
-/
namespace Chip8.Yaml

inductive Node
  | scalar (s : Scalar)
  | sequence (items : List Node)
  | mapping (entries : List (Node × Node))

namespace Node

/-- A value that is not written. -/
def absent : Node := .scalar ⟨[], true⟩

/-- The value of an entry that ends at one of the given tokens: not written when it ends at once. -/
def unlessAt (ends : List Token) (read : List Token → Option (Node × List Token))
    (ts : List Token) : Option (Node × List Token) :=
  match ts with
  | [] => some (absent, [])
  | t :: _ => if t ∈ ends then some (absent, ts) else read ts

/-- The key of a single pair in a sequence. A key that is not written takes with it the token that
ends it. -/
def readSingleKey (read : List Token → Option (Node × List Token)) (ts : List Token) :
    Option (Node × List Token) :=
  match ts with
  | t :: rest => if t ∈ [.value, .comma, .flowSequenceEnd] then some (absent, rest) else read ts
  | [] => none

mutual

/-- A node in block context. Where it is allowed, a sequence may stand without an indentation of
its own. -/
def readBlock : Nat → (bare : Bool) → List Token → Option (Node × List Token)
  | 0, _, _ => none
  | fuel + 1, bare, ts =>
    match ts with
    | .sequenceStart :: ts => (readEntries fuel ts).map fun (items, ts) => (.sequence items, ts)
    | .mappingStart :: ts => (readPairs fuel ts).map fun (entries, ts) => (.mapping entries, ts)
    | .entry :: _ =>
      if bare then (readBareEntries fuel ts).map fun (items, ts) => (.sequence items, ts) else none
    | _ => readFlow fuel ts

def readFlow : Nat → List Token → Option (Node × List Token)
  | 0, _ => none
  | fuel + 1, ts =>
    match ts with
    | .scalar s :: ts => some (.scalar s, ts)
    | .flowSequenceStart :: ts =>
      (readFlowItems fuel true ts).map fun (items, ts) => (.sequence items, ts)
    | .flowMappingStart :: ts =>
      (readFlowPairs fuel true ts).map fun (entries, ts) => (.mapping entries, ts)
    | _ => none

def readEntries : Nat → List Token → Option (List Node × List Token)
  | 0, _ => none
  | fuel + 1, ts =>
    match ts with
    | .blockEnd :: ts => some ([], ts)
    | .entry :: ts => do
      let (item, ts) ← unlessAt [.entry, .blockEnd] (readBlock fuel false) ts
      let (items, ts) ← readEntries fuel ts
      some (item :: items, ts)
    | _ => none

/-- The entries of a sequence without an indentation of its own. -/
def readBareEntries : Nat → List Token → Option (List Node × List Token)
  | 0, _ => none
  | fuel + 1, ts =>
    match ts with
    | .entry :: ts => do
      let (item, ts) ← unlessAt [.entry, .key, .value, .blockEnd] (readBlock fuel false) ts
      let (items, ts) ← readBareEntries fuel ts
      some (item :: items, ts)
    | ts => some ([], ts)

def readPairs : Nat → List Token → Option (List (Node × Node) × List Token)
  | 0, _ => none
  | fuel + 1, ts =>
    match ts with
    | .blockEnd :: ts => some ([], ts)
    | .key :: ts => do
      let (key, ts) ← unlessAt [.key, .value, .blockEnd] (readBlock fuel true) ts
      let (value, ts) ← match ts with
        | .value :: ts => unlessAt [.key, .value, .blockEnd] (readBlock fuel true) ts
        | ts => some (absent, ts)
      let (pairs, ts) ← readPairs fuel ts
      some ((key, value) :: pairs, ts)
    | _ => none

/-- The items of a sequence in brackets, and the bracket that closes it. An item may be a single
pair. -/
def readFlowItems : Nat → (first : Bool) → List Token → Option (List Node × List Token)
  | 0, _, _ => none
  | fuel + 1, first, ts =>
    match ts with
    | .flowSequenceEnd :: ts => some ([], ts)
    | ts => do
      let ts ← if first then some ts else match ts with
        | .comma :: ts => some ts
        | _ => none
      match ts with
      | .flowSequenceEnd :: ts => some ([], ts)
      | .key :: ts => do
        let (key, ts) ← readSingleKey (readFlow fuel) ts
        let (value, ts) ← match ts with
          | .value :: ts => unlessAt [.comma, .flowSequenceEnd] (readFlow fuel) ts
          | ts => some (absent, ts)
        let (items, ts) ← readFlowItems fuel false ts
        some (.mapping [(key, value)] :: items, ts)
      | ts => do
        let (item, ts) ← readFlow fuel ts
        let (items, ts) ← readFlowItems fuel false ts
        some (item :: items, ts)

/-- The pairs of a mapping in brackets, and the bracket that closes it. A key may stand alone. -/
def readFlowPairs : Nat → (first : Bool) → List Token →
    Option (List (Node × Node) × List Token)
  | 0, _, _ => none
  | fuel + 1, first, ts =>
    match ts with
    | .flowMappingEnd :: ts => some ([], ts)
    | ts => do
      let ts ← if first then some ts else match ts with
        | .comma :: ts => some ts
        | _ => none
      match ts with
      | .flowMappingEnd :: ts => some ([], ts)
      | .key :: ts => do
        let (key, ts) ← unlessAt [.value, .comma, .flowMappingEnd] (readFlow fuel) ts
        let (value, ts) ← match ts with
          | .value :: ts => unlessAt [.comma, .flowMappingEnd] (readFlow fuel) ts
          | ts => some (absent, ts)
        let (pairs, ts) ← readFlowPairs fuel false ts
        some ((key, value) :: pairs, ts)
      | ts => do
        let (key, ts) ← readFlow fuel ts
        let (pairs, ts) ← readFlowPairs fuel false ts
        some ((key, absent) :: pairs, ts)

end

/-- The one document of a sequence of tokens. It may begin with a marker, and markers for its end
may follow. -/
def ofTokens? (ts : List Token) : Option Node := do
  let fuel := 2 * ts.length + 2
  let (node, ts) ← match ts with
    | [] => some (absent, [])
    | .documentStart :: ts => unlessAt [.documentStart, .documentEnd] (readBlock fuel false) ts
    | ts => readBlock fuel false ts
  if ts.all (· = .documentEnd) then some node else none

/-- The document in a text. -/
def ofText? (text : String) : Option Node := (tokens? text.toList).bind ofTokens?

/-- The fields of a record: a mapping whose keys are scalars. A value that is not written is a
record without fields. -/
def fields? : Node → Option (List (String × Node))
  | .mapping entries => entries.mapM fun (key, value) =>
      match key with
      | .scalar s => some (String.ofList s.text, value)
      | _ => none
  | .scalar s => if s.isAbsent then some [] else none
  | .sequence _ => none

/-- The items of a sequence. A value that is not written is a sequence without items. -/
def items? : Node → Option (List Node)
  | .sequence items => some items
  | .scalar s => if s.isAbsent then some [] else none
  | .mapping _ => none

def scalar? : Node → Option Scalar
  | .scalar s => some s
  | _ => none

end Node

/-- The value of a field, read from its node, or a default where the field is not given. A field
that is given twice is refused. -/
def field? {α : Type} (fields : List (String × Node)) (name : String) (read : Scalar → Option α)
    (default : Option α) : Option α :=
  match fields.filter (·.1 == name) with
  | [] => default
  | [(_, node)] => node.scalar?.bind read
  | _ => none

end Chip8.Yaml
