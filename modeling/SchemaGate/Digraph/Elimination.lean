import SchemaGate.KeyedList

/-!
# Topological elimination

A directed graph is given by its nodes, in order, and the targets of each one's edges,
repetitions included. Edges to anything that is not a node are ignored. Elimination
takes nodes without remaining incoming edges from a queue, one per step, and removes
their edges; a node enters the queue when its last incoming edge goes. What is never
taken is `leftover`: the nodes on cycles and those behind them.
-/

namespace SchemaGate

/-- A directed graph. -/
structure Digraph (κ : Type) where
  /-- The nodes in order, each with the targets of its edges. -/
  edges : KeyedList κ (List κ)
  /-- No node stands twice. -/
  distinct : edges.keys.Nodup := by decide

/-- A stage of elimination. -/
structure Elimination (κ : Type) where
  /-- The remaining incoming edges of every node. -/
  degrees : KeyedList κ Nat
  /-- Nodes without incoming edges that wait to be taken. -/
  queue : List κ
  /-- Nodes that were taken, in order. -/
  sorted : List κ

namespace Elimination

variable {κ : Type} [DecidableEq κ]

/-- Count one more incoming edge of a node. -/
def countEdge (degrees : KeyedList κ Nat) (target : κ) : KeyedList κ Nat :=
  match KeyedList.find? target degrees with
  | none => degrees
  | some degree => KeyedList.insert target (degree + 1) degrees

/-- How many edges lead to each node. -/
def inDegrees (graph : Digraph κ) : KeyedList κ Nat :=
  graph.edges.values.flatten.foldl countEdge (graph.edges.map fun node => (node.1, 0))

/-- Before the first step. -/
def start (graph : Digraph κ) : Elimination κ :=
  let degrees := inDegrees graph
  ⟨degrees, (degrees.filter fun node => node.2 == 0).map Prod.fst, []⟩

/-- Remove one incoming edge of a node, which enters the queue with its last one. -/
def release (stage : Elimination κ) (target : κ) : Elimination κ :=
  match KeyedList.find? target stage.degrees with
  | none => stage
  | some degree =>
    { stage with
      degrees := KeyedList.insert target (degree - 1) stage.degrees
      queue := if degree - 1 = 0 then stage.queue ++ [target] else stage.queue }

/-- Take the first node of the queue and remove its edges. -/
def step (graph : Digraph κ) (stage : Elimination κ) : Elimination κ :=
  match stage.queue with
  | [] => stage
  | node :: rest =>
    let taken := { stage with queue := rest, sorted := stage.sorted ++ [node] }
    ((graph.edges.find? node).getD []).foldl release taken

/-- The stage after a number of steps. -/
def after (graph : Digraph κ) : Nat → Elimination κ
  | 0 => start graph
  | steps + 1 => step graph (after graph steps)

end Elimination

/-- The nodes that elimination never takes, in order. As many steps as there are nodes
empty the queue. -/
def Digraph.leftover {κ : Type} [DecidableEq κ] (graph : Digraph κ) : List κ :=
  let last := Elimination.after graph graph.edges.length
  graph.edges.keys.filter fun node => !last.sorted.contains node

example : Digraph.leftover { edges := [(1, [2]), (2, [1, 3]), (3, []), (4, [3, 9])] } =
    [1, 2, 3] := by decide

end SchemaGate
