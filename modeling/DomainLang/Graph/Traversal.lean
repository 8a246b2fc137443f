/-!
# Traversals of finite graphs that may have cycles

Three traversals, each structural in a bound on its steps and each taking the
nodes not to be visited as an argument:

- `follow` walks a graph with at most one successor per node;
- `breadthFirst` visits what a queue of nodes leads to, level by level;
- `postOrder` lists every node after the nodes it leads to, as far as cycles
  allow.

A bound is sufficient when it exceeds the number of nodes for `follow` and
`postOrder`, and the length of the queue plus the number of edges for
`breadthFirst`.
-/

namespace DomainLang.Graph

variable {α : Type} [DecidableEq α]

/-- The nodes met by following `next` from `current`, up to the first one that
was seen before. -/
def follow (next : α → Option α) : (bound : Nat) → (seen : List α) → (current : Option α) → List α
  | 0, _, _ => []
  | _ + 1, _, none => []
  | bound + 1, seen, some node =>
    if node ∈ seen then [] else node :: follow next bound (node :: seen) (next node)

/-- The nodes reached from a queue, in the order in which they are first taken
from it. -/
def breadthFirst (neighbours : α → List α) :
    (bound : Nat) → (seen : List α) → (queue : List α) → List α
  | 0, _, _ => []
  | _ + 1, _, [] => []
  | bound + 1, seen, node :: rest =>
    if node ∈ seen then breadthFirst neighbours bound seen rest
    else node :: breadthFirst neighbours bound (node :: seen) (rest ++ neighbours node)

/-- What a depth-first search has entered, and the nodes it has finished in order. -/
structure Search (α : Type) where
  entered : List α := []
  finished : List α := []

/-- Enter a node unless it was entered before, search what it leads to, and
finish it. -/
def Search.visit (parents : α → List α) : (bound : Nat) → Search α → α → Search α
  | 0, search, _ => search
  | bound + 1, search, node =>
    if node ∈ search.entered then search
    else
      let inner := (parents node).foldl (Search.visit parents bound)
        { search with entered := node :: search.entered }
      { inner with finished := inner.finished ++ [node] }

/-- Every node that the roots lead to, the roots included, parents first. -/
def postOrder (parents : α → List α) (bound : Nat) (roots : List α) : List α :=
  (roots.foldl (Search.visit parents bound) {}).finished

end DomainLang.Graph
