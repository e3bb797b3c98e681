import MediaMigration.Yaml.Error
import MediaMigration.Yaml.Token.Basic

/-!
# Nodes

A document is a tree of scalars, sequences and mappings, in which references stand for
nodes with an anchor. Anchors are known by numbers here.
-/

namespace MediaMigration

namespace Yaml

structure Properties where
  anchor? : Option Nat := none
  tag? : Option Bytes := none
deriving DecidableEq, Repr

inductive Node where
  | reference (number : Nat)
  | scalar (properties : Properties) (style : ScalarStyle) (text : String)
  | sequence (properties : Properties) (items : List Node)
  | mapping (properties : Properties) (pairs : List (Node × Node))
deriving Repr

namespace Node

def missing : Node :=
  .scalar {} .plain ""

def properties : Node → Properties
  | reference _ => {}
  | scalar properties _ _ => properties
  | sequence properties _ => properties
  | mapping properties _ => properties

mutual

def all : Node → List Node
  | reference number => [reference number]
  | scalar properties style text => [scalar properties style text]
  | sequence properties items => sequence properties items :: allOfItems items
  | mapping properties pairs => mapping properties pairs :: allOfPairs pairs

def allOfItems : List Node → List Node
  | [] => []
  | item :: rest => all item ++ allOfItems rest

def allOfPairs : List (Node × Node) → List Node
  | [] => []
  | (key, value) :: rest => all key ++ (all value ++ allOfPairs rest)

end

/-- What a node counts in the size of its document: collections begin and end. -/
def weight : Node → Nat
  | reference _ => 1
  | scalar _ _ _ => 1
  | sequence _ _ => 2
  | mapping _ _ => 2

end Node

structure Document where
  root : Node
deriving Repr

namespace Document

def size (document : Document) : Nat :=
  document.root.all.foldl (fun size node => size + node.weight) 0

/-- The nodes with anchors by the numbers of these, the last one first. A number that
occurs twice means the node that begins later. -/
def anchored (document : Document) : List (Nat × Node) :=
  (document.root.all.filterMap fun node =>
    node.properties.anchor?.map fun number => (number, node)).reverse

end Document

end Yaml

end MediaMigration
