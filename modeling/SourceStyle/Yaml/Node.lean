/-!
Documents of the data format that cache files are written in.
-/

namespace SourceStyle.Yaml

/-- A place where nothing is written, a scalar with its text, another use of a node that has a name,
or a collection of nodes. -/
inductive Node where
  | empty
  | scalar (text : String)
  | use (name : Nat)
  | sequence (items : List Node)
  | mapping (entries : List (Node × Node))

/-- A document: its outermost node, and the nodes that have a name in the order they begin in, each
with the number of its name. -/
structure Document where
  root : Node
  named : List (Nat × Node) := []

namespace Document

/-- The node that a node stands for. A use stands for the last node with that name. -/
def resolve (document : Document) : Node → Node
  | .use name => (document.named.reverse.lookup name).getD .empty
  | node => node

def scalar? (document : Document) (node : Node) : Option String :=
  match document.resolve node with
  | .empty => some ""
  | .scalar text => some text
  | _ => none

def fields? (document : Document) (node : Node) : Option (List (String × Node)) :=
  match document.resolve node with
  | .empty => some []
  | .mapping entries => entries.mapM fun (key, value) => (document.scalar? key).map (·, value)
  | _ => none

end Document
end SourceStyle.Yaml
