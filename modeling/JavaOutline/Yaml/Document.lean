import JavaOutline.Error
import JavaOutline.Yaml.Atom

/-! # Documents

    The value of a YAML text.  Collections are kept by the nodes that they are,
    so that a collection can be a part of itself.  In a mapping no key comes
    twice: an entry with a key that is there takes the place of the old one. -/

namespace JavaOutline.Yaml

/-- A value in a document: an atom, or the collection that a node is. -/
inductive Item where
  | atom (a : Atom)
  | collection (node : Nat)
  deriving DecidableEq, Repr

/-- No key comes twice. -/
def DistinctKeys (es : List (Atom × Item)) : Prop :=
  es.Pairwise fun a b => a.1.sameKey b.1 = false

/-- The entries of a mapping. -/
structure Mapping where
  entries : List (Atom × Item) := []
  distinct : DistinctKeys entries := by exact List.Pairwise.nil
  deriving DecidableEq, Repr

namespace Mapping

/-- The entries with another value for the key `k`. -/
def replace (es : List (Atom × Item)) (k : Atom) (v : Item) :
    List (Atom × Item) :=
  es.map fun e => (e.1, if e.1.sameKey k then v else e.2)

theorem distinct_replace {es : List (Atom × Item)} (h : DistinctKeys es)
    (k : Atom) (v : Item) : DistinctKeys (replace es k v) :=
  List.pairwise_map.mpr h

theorem distinct_append {es : List (Atom × Item)} (h : DistinctKeys es) {k : Atom}
    (hnew : ¬ es.any (fun e => e.1.sameKey k) = true) (v : Item) :
    DistinctKeys (es ++ [(k, v)]) := by
  refine List.pairwise_append.mpr ⟨h, List.pairwise_singleton _ _, fun a ha b hb => ?_⟩
  rw [List.mem_singleton.mp hb]
  exact Bool.eq_false_iff.mpr fun hsame => hnew (List.any_eq_true.mpr ⟨a, ha, hsame⟩)

/-- Put an entry into a mapping; a key that is there keeps its place. -/
def insert (m : Mapping) (k : Atom) (v : Item) : Mapping :=
  if h : m.entries.any (fun e => e.1.sameKey k) then
    ⟨replace m.entries k v, distinct_replace m.distinct k v⟩
  else ⟨m.entries ++ [(k, v)], distinct_append m.distinct h v⟩

end Mapping

/-- A collection of values. -/
inductive Collection where
  | sequence (items : List Item)
  | pairs (items : List (Item × Item))
  | mapping (entries : Mapping)
  | set (items : List Atom)
  deriving DecidableEq, Repr

/-- The values of a text: the root, and the collections by their nodes. -/
structure Document where
  root : Item
  collections : List (Nat × Collection) := []
  deriving DecidableEq, Repr

/-- The collection that an item is. -/
def Document.collection? (d : Document) : Item → Option Collection
  | .collection n => d.collections.lookup n
  | .atom _ => none

/-- A way to read YAML. -/
abbrev Loader := String → Except Error Document

end JavaOutline.Yaml
