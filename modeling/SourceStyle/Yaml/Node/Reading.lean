import SourceStyle.Yaml.Node
import SourceStyle.Yaml.Symbol.Reading

/-!
The document that symbols make up. Where a key, a value or an item is left out, its node is empty.
-/

namespace SourceStyle.Yaml

/-- The symbols that are left, the handles that tags may have, the names given so far with their
numbers, and the nodes that have a name. -/
structure Composition where
  symbols : List Symbol
  handles : List Handle := commonHandles
  names : List (List Char × Nat) := []
  named : List (Nat × Node) := []

/-- A step of composing a document, which may refuse the symbols. -/
abbrev Compose := StateT Composition Option

namespace Compose

def refuse {α : Type} : Compose α :=
  fun _ => none

def peek : Compose (Option Symbol) := do
  pure (← get).symbols.head?

def isAt (symbols : List Symbol) : Compose Bool := do
  pure ((← peek).any symbols.contains)

def pass : Compose Unit :=
  modify fun composition => { composition with symbols := composition.symbols.drop 1 }

def givenName : Compose (Option (List Char)) := do
  match ← peek with
  | some (.name name) =>
    pass
    pure (some name)
  | _ => pure none

/-- Passes over a tag, whose handle must be known, and tells whether there was one. -/
def passTag : Compose Bool := do
  match ← peek with
  | some (.tag handle) =>
    if !(← get).handles.contains handle then refuse
    pass
    pure true
  | _ => pure false

structure Properties where
  name : Option (List Char) := none
  tagged : Bool := false

def Properties.isPresent (properties : Properties) : Bool :=
  properties.name.isSome || properties.tagged

/-- What is said of the node here: a name and a tag in either order. -/
def properties : Compose Properties := do
  let name ← givenName
  let tagged ← passTag
  let later ← if name.isNone && tagged then givenName else pure none
  pure { name := name.or later, tagged }

/-- The node that is composed, kept under the name given to it. The number of a name is how many
names were known when it was last given. The node takes its place among those with a name before it
is composed, so that what is inside it comes after it. -/
def naming (name : Option (List Char)) (compose : Compose Node) : Compose Node := do
  match name with
  | none => compose
  | some name =>
    let before ← get
    let number := before.names.length
    let place := before.named.length
    set { before with
      names := (name, number) :: before.names.filter (·.1 != name)
      named := before.named ++ [(number, Node.empty)] }
    let node ← compose
    modify fun composition =>
      { composition with named := composition.named.set place (number, node) }
    pure node

def used (name : List Char) : Compose Node := do
  match (← get).names.lookup name with
  | some number => pure (.use number)
  | none => refuse

/-- An empty node before some symbols, and else the node that is composed. -/
def unlessAt (symbols : List Symbol) (compose : Compose Node) : Compose Node := do
  if ← isAt symbols then pure .empty else compose

/-- The symbols before which the key or value of a block mapping may be left out. -/
def afterEntry : List Symbol :=
  [.key, .value, .blockEnd]

/-- The value after a key, which may be left out as a whole or after its colon. -/
def valueUnlessAt (symbols : List Symbol) (compose : Compose Node) : Compose Node := do
  if ← isAt [.value] then
    pass
    unlessAt symbols compose
  else pure .empty

/-- The key of a mapping that is one item in brackets. One that is left out takes the symbol after
it along. -/
def pairKey (compose : Compose Node) : Compose Node := do
  if ← isAt [.value, .comma, .closeSquare] then
    pass
    pure .empty
  else compose

/-- Passes over the comma between what stands in brackets. The first has none in front. -/
def separator (isFirst : Bool) : Compose Unit := do
  if !isFirst then
    if ← isAt [.comma] then pass else refuse

mutual

/-- The node here. Inside brackets it is no block collection (`block`). After the key of a block
mapping the items of a sequence may stand without a beginning of their own (`level`). -/
def node (block level : Bool) : Nat → Compose Node
  | 0 => refuse
  | fuel + 1 => do
    match ← peek with
    | some (.use name) =>
      pass
      used name
    | _ =>
      let properties ← properties
      naming properties.name (content block level properties.isPresent fuel)
termination_by structural fuel => fuel

/-- The node here without its properties. If it has some (`adorned`), it may be left out. -/
def content (block level adorned : Bool) : Nat → Compose Node
  | 0 => refuse
  | fuel + 1 => do
    match ← peek with
    | some (.scalar chars) =>
      pass
      pure (.scalar (String.ofList chars))
    | some .openSquare =>
      pass
      .sequence <$> flowItems true fuel
    | some .openCurly =>
      pass
      .mapping <$> flowEntries true fuel
    | symbol =>
      if level && symbol == some .dash then .sequence <$> levelItems fuel
      else if block && symbol == some .sequenceStart then
        pass
        .sequence <$> blockItems fuel
      else if block && symbol == some .mappingStart then
        pass
        .mapping <$> blockEntries fuel
      else if adorned then pure .empty
      else refuse
termination_by structural fuel => fuel

def blockItems : Nat → Compose (List Node)
  | 0 => refuse
  | fuel + 1 => do
    match ← peek with
    | some .dash =>
      pass
      let item ← unlessAt [.dash, .blockEnd] (node true false fuel)
      let items ← blockItems fuel
      pure (item :: items)
    | some .blockEnd =>
      pass
      pure []
    | _ => refuse
termination_by structural fuel => fuel

/-- The items of a sequence that has no beginning and end of its own. -/
def levelItems : Nat → Compose (List Node)
  | 0 => refuse
  | fuel + 1 => do
    if ← isAt [.dash] then
      pass
      let item ← unlessAt (.dash :: afterEntry) (node true false fuel)
      let items ← levelItems fuel
      pure (item :: items)
    else pure []
termination_by structural fuel => fuel

def blockEntries : Nat → Compose (List (Node × Node))
  | 0 => refuse
  | fuel + 1 => do
    match ← peek with
    | some .key =>
      pass
      let key ← unlessAt afterEntry (node true true fuel)
      let value ← valueUnlessAt afterEntry (node true true fuel)
      let entries ← blockEntries fuel
      pure ((key, value) :: entries)
    | some .blockEnd =>
      pass
      pure []
    | _ => refuse
termination_by structural fuel => fuel

/-- The items in square brackets up to the closing one. An item may be one entry of a mapping. -/
def flowItems (isFirst : Bool) : Nat → Compose (List Node)
  | 0 => refuse
  | fuel + 1 => do
    if ← isAt [.closeSquare] then
      pass
      pure []
    else
      separator isFirst
      match ← peek with
      | some .closeSquare =>
        pass
        pure []
      | some .key =>
        pass
        let key ← pairKey (node false false fuel)
        let value ← valueUnlessAt [.comma, .closeSquare] (node false false fuel)
        let items ← flowItems false fuel
        pure (.mapping [(key, value)] :: items)
      | _ =>
        let item ← node false false fuel
        let items ← flowItems false fuel
        pure (item :: items)
termination_by structural fuel => fuel

def flowEntries (isFirst : Bool) : Nat → Compose (List (Node × Node))
  | 0 => refuse
  | fuel + 1 => do
    if ← isAt [.closeCurly] then
      pass
      pure []
    else
      separator isFirst
      match ← peek with
      | some .closeCurly =>
        pass
        pure []
      | some .key =>
        pass
        let key ← unlessAt [.value, .comma, .closeCurly] (node false false fuel)
        let value ← valueUnlessAt [.comma, .closeCurly] (node false false fuel)
        let entries ← flowEntries false fuel
        pure ((key, value) :: entries)
      | _ =>
        let key ← node false false fuel
        let entries ← flowEntries false fuel
        pure ((key, .empty) :: entries)
termination_by structural fuel => fuel

end

/-- Whether a directive may stand after others: one version that is known, and each handle once. -/
def admits (before : List Directive) : Directive → Bool
  | .version major minor =>
    major == 1 && (minor == 1 || minor == 2) &&
      !before.any fun | .version _ _ => true | .handle _ => false
  | .handle handle => !before.contains (.handle handle)

def directives (before : List Directive) : List Symbol → Option (List Handle × List Symbol)
  | .directive directive :: rest =>
    if admits before directive then
      (directives (directive :: before) rest).map fun (handles, rest) =>
        match directive with
        | .version _ _ => (handles, rest)
        | .handle handle => (handle :: handles, rest)
    else none
  | symbols => some ([], symbols)

/-- The outermost node of a document. After its marker it may be left out. -/
def root (fuel : Nat) : Compose Node := do
  match ← peek with
  | none => pure .empty
  | some .documentStart | some (.directive _) =>
    match directives [] (← get).symbols with
    | some (handles, .documentStart :: symbols) =>
      modify fun composition =>
        { composition with symbols, handles := handles ++ composition.handles }
      match ← peek with
      | none | some .documentStart | some .documentEnd | some (.directive _) => pure .empty
      | _ => node true false fuel
    | _ => refuse
  | _ => node true false fuel

end Compose

/-- The document that symbols make up. Nothing but markers of its end may follow it. Composing a
node takes few steps more than it has symbols. -/
def Document.ofSymbols? (symbols : List Symbol) : Option Document := do
  let (root, composition) ← (Compose.root (3 * symbols.length + 4)).run { symbols }
  if composition.symbols.all (· == .documentEnd) then
    some { root, named := composition.named }
  else none

def Document.ofText? (text : String) : Option Document := do
  Document.ofSymbols? (← Symbol.ofText? text)

end SourceStyle.Yaml
