import HttpFile.Yaml.Node

/-!
# `HttpFile.Yaml.Merge` — merge keys

A merge key takes over the entries of other mappings, which the mapping's own entries replace. The
entries of a mapping are changed once and for all, so a mapping that is merged into another one has
no merge keys left, even if it is the one that is being changed.

## Contents
- **Nodes.** `Graph.tag`, `Graph.entries`, and how they are changed.
- **Merging.** `Graph.mergeFrom`, `Graph.merge`.
-/

namespace HttpFile.Yaml

/-- The type of a node. -/
def Node.tag : Node → Tag
  | .scalar t _ | .sequence t _ | .mapping t _ => t

/-- A node with another type. -/
def Node.withTag (t : Tag) : Node → Node
  | .scalar _ content => .scalar t content
  | .sequence _ items => .sequence t items
  | .mapping _ entries => .mapping t entries

namespace Graph

/-- The type of the node with a number. -/
def tag (g : Graph) (n : Nat) : Tag := (g[n]?.map Node.tag).getD .foreign

/-- The entries of the mapping with a number, as they stand. -/
def entries (g : Graph) (n : Nat) : List (Nat × Nat) :=
  match g[n]? with
  | some (.mapping _ es) => es
  | _ => []

/-- Change the entries of the mapping with a number. -/
def setEntries (g : Graph) (n : Nat) (es : List (Nat × Nat)) : Graph :=
  g.setIfInBounds n (.mapping (g.tag n) es)

/-- Make texts of the keys among entries that stand for a default value. -/
def withTextKeys (g : Graph) (es : List (Nat × Nat)) : Graph :=
  es.foldl (fun g (key, _) =>
    if g.tag key = .value then g.modify key (Node.withTag .str) else g) g

/-- The number of merge keys in all mappings. -/
def mergeKeys (g : Graph) : Nat :=
  g.foldl (fun total node =>
    match node with
    | .mapping _ es => total + es.countP fun (key, _) => g.tag key = .merge
    | _ => total) 0

/-! ## Merging -/

/-- Follow the merge keys of a mapping from an entry on, given the entries merged so far. The bound
    is on the number of merge keys, each of which is removed before it is followed. Of several
    mappings behind one merge key the first has the last word, so its entries come last. -/
def mergeFrom : Nat → Nat → Nat → List (Nat × Nat) → Graph → Except Failure Graph
  | 0, _, _, _, g => .ok g
  | bound + 1, n, start, merged, g =>
    let es := g.entries n
    match (es.drop start).findIdx? fun (key, _) => g.tag key = .merge with
    | none =>
      let g := g.withTextKeys (es.drop start)
      .ok (if merged.isEmpty then g else g.setEntries n (merged ++ es))
    | some skipped =>
      let place := start + skipped
      let source := (es[place]?.map (·.2)).getD n
      let g := (g.withTextKeys ((es.drop start).take skipped)).setEntries n (es.eraseIdx place)
      match g[source]? with
      | some (.mapping _ _) => do
        let g ← mergeFrom bound source 0 [] g
        mergeFrom bound n place (merged ++ g.entries source) g
      | some (.sequence _ items) => do
        let (g, taken) ← items.foldlM (fun (g, taken) item =>
          match g[item]? with
          | some (.mapping _ _) => do
            let g ← mergeFrom bound item 0 [] g
            return (g, g.entries item :: taken)
          | _ => .error .malformed) (g, [])
        mergeFrom bound n place (merged ++ taken.flatten) g
      | _ => .error .malformed

/-- Follow all merge keys of a mapping. -/
def merge (g : Graph) (n : Nat) : Except Failure Graph := mergeFrom (g.mergeKeys + 1) n 0 [] g

end Graph

end HttpFile.Yaml
