import Reckoner.Value.Equality
import Reckoner.Yaml.Assembly
import Reckoner.Yaml.Resolve
import Reckoner.Yaml.Tree
/-!
# The value of a document

Sequences become lists and mappings become mappings, in which the last value of a key counts. A mapping may have
others merged into it, whose entries come before its own. Scalars and texts between quotes are the keys of a mapping,
collections are not.
-/
namespace Reckoner.Yaml

/-- Are two keys of a mapping one key? NaN is a single key, though as a number it differs from itself. -/
def sameKey : Value → Value → Bool
  | .float .nan, .float .nan => true
  | a, b => a.equals b

namespace Tree

/-- Does the key merge the entries of its value into the mapping? -/
def isMergeKey : Tree → Bool
  | .scalar content true => content == Text.ofString "<<"
  | _ => false

/-- The value of a scalar. -/
def scalarValue (content : Text) (isPlain : Bool) : Except Fault Value :=
  if isPlain then Resolve.plain content else .ok (.text content)

/-- The value of a key; an equals sign stands for itself. -/
def keyValue : Tree → Except Fault Value
  | .scalar content isPlain =>
    if content = Text.ofString "=" then .ok (.text content) else scalarValue content isPlain
  | _ => .error .unreadable

mutual

/-- Can the tree be merged into a mapping? A mapping and a sequence of mappings can, unless something is merged into
one of these that cannot be. -/
def isMergeable : Tree → Bool
  | .scalar _ _ => false
  | .sequence items => allMergeable items
  | .mapping entries => mergesWell entries

def allMergeable : List Tree → Bool
  | [] => true
  | tree :: rest =>
    match tree with
    | .mapping entries => mergesWell entries && allMergeable rest
    | _ => false

/-- Can everything that is merged into a mapping with these entries be? -/
def mergesWell : List (Tree × Tree) → Bool
  | [] => true
  | (key, tree) :: rest => (!key.isMergeKey || tree.isMergeable) && mergesWell rest

end

/-- The entries that are merged into a mapping, and then its own. What is merged is looked at before any entry. -/
def joined (entries : List (Tree × Tree)) (merged own : Assembly (List (Value × Value))) :
    Assembly (List (Value × Value)) :=
  if mergesWell entries then (merged.both own).map fun (first, second) => first ++ second
  else .faulty 0 .unreadable

mutual

/-- The value of a tree, or its fault. -/
def assemble : Tree → Assembly Value
  | .scalar content isPlain => .ofExcept (scalarValue content isPlain)
  | .sequence items => (assembleAll items).enclosed.map .list
  | .mapping entries =>
    (joined entries (mergedEntries entries) (ownEntries entries)).enclosed.map fun assembled =>
      .mapping (Value.ofEntriesBy sameKey assembled)

def assembleAll : List Tree → Assembly (List Value)
  | [] => .whole []
  | tree :: rest => (tree.assemble.both (assembleAll rest)).map fun (v, others) => v :: others

/-- The entries that the merge keys of a mapping bring in. -/
def mergedEntries : List (Tree × Tree) → Assembly (List (Value × Value))
  | [] => .whole []
  | (key, tree) :: rest =>
    if key.isMergeKey then (tree.entriesToMerge.both (mergedEntries rest)).map fun (first, others) => first ++ others
    else mergedEntries rest

/-- The entries written in a mapping itself. -/
def ownEntries : List (Tree × Tree) → Assembly (List (Value × Value))
  | [] => .whole []
  | (key, tree) :: rest =>
    if key.isMergeKey then ownEntries rest
    else
      (((Assembly.ofExcept key.keyValue).both tree.assemble).both (ownEntries rest)).map fun (entry, others) =>
        entry :: others

/-- The entries a tree brings into another mapping. -/
def entriesToMerge : Tree → Assembly (List (Value × Value))
  | .scalar _ _ => .whole []
  | .sequence items => allEntriesToMerge items
  | .mapping entries => joined entries (mergedEntries entries) (ownEntries entries)

/-- The entries of several mappings, those of the last one first. -/
def allEntriesToMerge : List Tree → Assembly (List (Value × Value))
  | [] => .whole []
  | tree :: rest => ((allEntriesToMerge rest).both tree.entriesToMerge).map fun (others, first) => others ++ first

end

end Tree

/-- The value of a document; a text without a document has no value. -/
def read (t : Text) : Except Fault Value := do
  match ← Tree.ofLexemes? (Lexeme.ofText t) with
  | some tree => tree.assemble.toExcept
  | none => return .absent

end Reckoner.Yaml
