import HttpFile.Yaml.Merge
import HttpFile.Yaml.Scalar

/-!
# `HttpFile.Yaml.Load` — the value of a document

The nodes of a document become plain data, each node once. Collections are built level by level from
the top, so of several failures the one nearest to the top counts, and of several on one level the
first. At first the parts of a collection are links to other nodes; then the links are replaced by
data from the bottom up. What cannot be completed in this way contains itself and keeps its links.

## Contents
- **Building.** `Building`, `visit`, `buildParts`, `buildAll`.
- **Settling.** `settleOnce`, `settle`, `valueOf`.
- **Texts.** `load`.
-/

namespace HttpFile.Yaml

/-! ## Building -/

/-- The nodes, what they have become, and the collections whose parts are still to be built, the
    last one first. -/
structure Building where
  graph : Graph
  made : Array (Option Value)
  waiting : List Nat := []

/-- The building of a part of a document. -/
abbrev Build := StateT Building (Except Failure)

/-- Whether a type is that of data with parts. -/
def Tag.isCollection : Tag → Bool
  | .seq | .map | .set | .omap | .pairs => true
  | _ => false

/-- The content of a node that should be a scalar: a mapping may hold it as its default value. -/
def scalarContent (g : Graph) : Nat → Nat → Except Failure Content
  | 0, _ => .error .endless
  | bound + 1, n =>
    match g[n]? with
    | some (.scalar _ content) => .ok content
    | some (.mapping _ entries) =>
      match entries.find? fun (key, _) => g.tag key = .value with
      | some (_, v) => scalarContent g bound v
      | none => .error .malformed
    | _ => .error .malformed

/-- The value of a node that should be a scalar. A date has to stand there itself. -/
def leafValue (g : Graph) (n : Nat) : Except Failure Value := do
  let content ← scalarContent g (g.size + 1) n
  match g.tag n, g[n]? with
  | .timestamp, some (.mapping _ _) => throw .notAScalar
  | t, _ => scalarValue n t content

/-- What a node has become. -/
def Building.value? (b : Building) (n : Nat) : Option Value := (b.made[n]?).join

/-- Say what a node has become. -/
def become (n : Nat) (v : Value) : Build Unit :=
  modify fun b => { b with made := b.made.setIfInBounds n (some v) }

/-- Build a node unless it has been built. The parts of a collection are left for later. -/
def visit (n : Nat) : Build Unit := do
  let b ← get
  if (b.value? n).isSome then return ()
  else if (b.graph.tag n).isCollection then
    become n (.list [])
    modify fun b => { b with waiting := n :: b.waiting }
  else become n (← leafValue b.graph n)

/-- Add a pair of nodes, which is no node itself. Its number. -/
def addPair (key value : Nat) : Build Nat := do
  let b ← get
  set { b with made := b.made.push (some (.tuple [.link key, .link value])) }
  return b.made.size

/-- The items of a sequence. -/
def itemsOf (n : Nat) : Build (List Nat) := do
  match (← get).graph[n]? with
  | some (.sequence _ items) => return items
  | _ => throw .malformed

/-- The entries of a mapping with its merge keys followed. -/
def entriesOf (n : Nat) : Build (List (Nat × Nat)) := do
  let b ← get
  match b.graph[n]? with
  | some (.mapping _ _) =>
    let graph ← b.graph.merge n
    set { b with graph := graph }
    return graph.entries n
  | _ => throw .malformed

/-- Build an entry of a mapping. Data with parts are no key. -/
def buildEntry (entry : Nat × Nat) : Build (Value × Value) := do
  visit entry.1
  match ((← get).value? entry.1).filter Value.isKey with
  | none => throw .malformed
  | some key =>
    visit entry.2
    return (key, .link entry.2)

/-- Build the one entry of a mapping in a sequence of such mappings. -/
def buildPair (n : Nat) : Build Value := do
  match (← get).graph[n]? with
  | some (.mapping _ [(key, value)]) =>
    visit key
    visit value
    return .link (← addPair key value)
  | _ => throw .malformed

/-- Entries as a mapping: an equal key replaces the value. -/
def dictOf (entries : List (Value × Value)) : List (Value × Value) :=
  entries.foldl (fun d (k, v) => Value.put d k v) []

/-- Build the parts of a collection. -/
def buildParts (n : Nat) : Build Unit := do
  match (← get).graph.tag n with
  | .seq =>
    let items ← itemsOf n
    items.forM visit
    become n (.list (items.map .link))
  | .map => become n (.dict (dictOf (← (← entriesOf n).mapM buildEntry)))
  | .set => become n (.set ((dictOf (← (← entriesOf n).mapM buildEntry)).map (·.1)))
  | _ => become n (.list (← (← itemsOf n).mapM buildPair))

/-- Build the parts of all collections that wait, then of those that have come to wait meanwhile.
    The bound is on the number of levels. -/
def buildAll : Nat → Build Unit
  | 0 => return ()
  | levels + 1 => do
    match (← get).waiting.reverse with
    | [] => return ()
    | waiting =>
      modify fun b => { b with waiting := [] }
      waiting.forM buildParts
      buildAll levels

/-! ## Settling -/

/-- Data by number, as far as they are complete. -/
abbrev Settled := Array (Option Value)

/-- A part of a container: what a link leads to, if that is complete. -/
def Settled.part? (s : Settled) : Value → Option Value
  | .link n => (s[n]?).join
  | v => some v

/-- A container without links, if all its parts are complete. -/
def Settled.complete? (s : Settled) : Value → Option Value
  | .list items => (items.mapM s.part?).map .list
  | .tuple items => (items.mapM s.part?).map .tuple
  | .dict entries => (entries.mapM fun entry => (s.part? entry.2).map (entry.1, ·)).map .dict
  | v => some v

/-- Complete what can be completed, the last data first. -/
def settleOnce (made : Array (Option Value)) (s : Settled) : Settled :=
  (List.range made.size).reverse.foldl (fun s n =>
    match (s[n]?).join, (made[n]?).join with
    | none, some v => s.setIfInBounds n (s.complete? v)
    | _, _ => s) s

/-- The number of data that are complete. -/
def Settled.count (s : Settled) : Nat := s.countP Option.isSome

/-- Complete what can be completed, for as long as there is more of it. -/
def settle (made : Array (Option Value)) : Nat → Settled → Settled
  | 0, s => s
  | rounds + 1, s =>
    let next := settleOnce made s
    if next.count = s.count then s else settle made rounds next

/-- The data with a number. What is not complete contains itself. -/
def valueOf (made : Array (Option Value)) (n : Nat) : Value :=
  let s := settle made (made.size + 1) (made.map fun _ => none)
  match (s[n]?).join with
  | some v => v
  | none =>
    let table := (List.range made.size).filterMap fun k =>
      match (s[k]?).join, (made[k]?).join with
      | none, some v =>
        some (k, v.mapParts (Value.followLink fun j => ((s[j]?).join).getD (.link j)))
      | _, _ => none
    .cyclic table n

/-! ## Texts -/

/-- The value of the node at the top of a graph. -/
def build (g : Graph) (top : Nat) : Except Failure Value :=
  let work : Build Unit := do
    visit top
    buildAll (g.size + 1)
  (work.run { graph := g, made := g.map fun _ => none }).map fun (_, b) => valueOf b.made top

/-- The value of a text, with room for so many collections inside each other; a text without a
    document is nothing. -/
def load (room : Nat) (t : Text) : Except Failure Value :=
  match document? room t with
  | .error f => .error f
  | .ok none => .ok .null
  | .ok (some (g, top)) => build g top

end HttpFile.Yaml
