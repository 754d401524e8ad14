/-!
The generic containers a type can name, concrete ones and abstract ones.
-/

namespace ToolSchema

inductive Origin
  | list
  | tuple
  | dict
  | set
  | frozenSet
  | bytes
  | abstractSet
  | mutableSet
  | mapping
  | mutableMapping
  | mappingView
  | sequence
  | mutableSequence
  | valuesView
  | keysView
  | iterable
  | iterator
  | container
  | collection
  | sized
  | reversible
  | byteString
  deriving DecidableEq

namespace Origin

/-- The container that stands in for an abstract one. A concrete container stands for itself. -/
def concretize : Origin → Origin
  | .abstractSet | .mutableSet => .set
  | .mapping | .mutableMapping | .mappingView => .dict
  | .sequence | .mutableSequence | .valuesView | .keysView | .iterable | .iterator | .container
  | .collection | .sized | .reversible => .list
  | .byteString => .bytes
  | .list => .list
  | .tuple => .tuple
  | .dict => .dict
  | .set => .set
  | .frozenSet => .frozenSet
  | .bytes => .bytes

def isAbstract (origin : Origin) : Bool := origin.concretize != origin

def name : Origin → String
  | .list => "list"
  | .tuple => "tuple"
  | .dict => "dict"
  | .set => "set"
  | .frozenSet => "frozenset"
  | .bytes => "bytes"
  | .abstractSet => "Set"
  | .mutableSet => "MutableSet"
  | .mapping => "Mapping"
  | .mutableMapping => "MutableMapping"
  | .mappingView => "MappingView"
  | .sequence => "Sequence"
  | .mutableSequence => "MutableSequence"
  | .valuesView => "ValuesView"
  | .keysView => "KeysView"
  | .iterable => "Iterable"
  | .iterator => "Iterator"
  | .container => "Container"
  | .collection => "Collection"
  | .sized => "Sized"
  | .reversible => "Reversible"
  | .byteString => "ByteString"

def all : List Origin :=
  [.list, .tuple, .dict, .set, .frozenSet, .bytes, .abstractSet, .mutableSet, .mapping,
    .mutableMapping, .mappingView, .sequence, .mutableSequence, .valuesView, .keysView, .iterable,
    .iterator, .container, .collection, .sized, .reversible, .byteString]

def ofName? (name : String) : Option Origin := all.find? fun origin => origin.name == name

/-- The container a type means by a word. `Set` is the concrete set unless it is spelled out as one
of the abstract base classes. -/
def ofWord? (word : String) (abstractBase : Bool) : Option Origin :=
  match word with
  | "List" => some .list
  | "Tuple" => some .tuple
  | "Dict" => some .dict
  | "Set" => some (if abstractBase then .abstractSet else .set)
  | "FrozenSet" => some .frozenSet
  | "AbstractSet" => some .abstractSet
  | _ => ofName? word

end Origin

end ToolSchema
