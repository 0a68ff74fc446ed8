import Mathlib.Logic.Relation
import SchemaGate.Proofs.Catalog.Replacement

/-!
# What the check for cycles reports

What elimination leaves over is, in the order of the nodes, what some cycle reaches. So the check
for cycles lists the types that are on a cycle of references or behind one. Which types refer to
which is read off the records here (`Links`), and paths are closures of that relation. The list
rises; a pending type that is not stored comes last in it.
-/

namespace SchemaGate

open Relation (ReflTransGen TransGen)

namespace Digraph

variable {κ : Type} [DecidableEq κ] {graph : Digraph κ} {source target node : κ}

/-- A node reaches what a chain of edges leads to. -/
theorem reaches_iff_reflTransGen : graph.Reaches source target ↔
    source ∈ graph.edges.keys ∧ ReflTransGen graph.Edge source target := by
  constructor
  · intro h
    refine ⟨h.source_mem, ?_⟩
    induction h with
    | refl => exact .refl
    | step edge _ ih => exact .head edge ih
  · rintro ⟨held, chain⟩
    induction chain using ReflTransGen.head_induction_on with
    | refl => exact .refl held
    | head edge _ ih => exact .step edge (ih edge.target_mem)

/-- A node is on a cycle if a chain of edges leads back to it. -/
theorem onCycle_iff_transGen : graph.OnCycle node ↔ TransGen graph.Edge node node := by
  rw [TransGen.head'_iff]
  refine exists_congr fun successor => and_congr_right fun edge => ?_
  rw [reaches_iff_reflTransGen]
  exact and_iff_right edge.target_mem

/-- What is left over keeps the order of the nodes. -/
theorem leftover_sublist_keys (graph : Digraph κ) :
    graph.leftover.Sublist graph.edges.keys := by
  rw [leftover_eq_filter]
  exact List.filter_sublist

/-- A node is left over if it is on a cycle or a chain of edges leads to it from one. -/
theorem mem_leftover_iff_transGen : node ∈ graph.leftover ↔
    ∃ start, TransGen graph.Edge start start ∧ ReflTransGen graph.Edge start node := by
  rw [mem_leftover_iff]
  refine exists_congr fun start => ?_
  rw [onCycle_iff_transGen]
  refine and_congr_right fun round => ?_
  rw [reaches_iff_reflTransGen]
  exact and_iff_right (onCycle_iff_transGen.mpr round).node_mem

end Digraph

namespace Catalog

variable {catalog : Catalog} {app : AppId} {pending : TypeId} {fields : List TypeField}

/-- The check for cycles looks at the application's types and at the pending one. -/
def Concerns (catalog : Catalog) (app : AppId) (pending id : TypeId) : Prop :=
  (∃ type ∈ catalog.ownedBy app, type.id = id) ∨ id = pending

/-- With the fields of the pending type replaced, one of these types refers to another. -/
def Links (catalog : Catalog) (app : AppId) (pending : TypeId) (fields : List TypeField)
    (source target : TypeId) : Prop :=
  catalog.Concerns app pending source ∧ catalog.Concerns app pending target ∧
    (catalog.withFields pending fields).Refers source target

/-- The edges of the graph of references are the references between these types. -/
theorem edge_referenceGraph_eq_links :
    (catalog.referenceGraph app pending fields).Edge = catalog.Links app pending fields := by
  ext source target
  rw [edge_referenceGraph_iff, mem_keys_referenceGraph_iff, mem_keys_referenceGraph_iff]
  rfl

/-- The check passes if no chain of references between these types leads back to its start. -/
theorem auditCycles_eq_ok_iff_links {pending : Option TypeId} :
    catalog.auditCycles app pending fields = .ok () ↔
      ∀ id, ¬ TransGen (catalog.Links app (pending.getD placeholder) fields) id id := by
  rw [auditCycles_eq_ok_iff, ← edge_referenceGraph_eq_links]
  exact forall_congr' fun id => not_congr Digraph.onCycle_iff_transGen

/-- The check fails with what is left over, if anything is. -/
theorem auditCycles_eq_error_iff {pending : Option TypeId} {error : ReferenceError} :
    catalog.auditCycles app pending fields = .error error ↔
      (catalog.referenceGraph app (pending.getD placeholder) fields).leftover ≠ [] ∧
      error = .cycle (catalog.referenceGraph app (pending.getD placeholder) fields).leftover := by
  rw [auditCycles]
  cases (catalog.referenceGraph app (pending.getD placeholder) fields).leftover with
  | nil => simp
  | cons first rest => simp [eq_comm]

/-- A type is left over if it is on a cycle of references or behind one. -/
theorem mem_leftover_referenceGraph_iff {id : TypeId} :
    id ∈ (catalog.referenceGraph app pending fields).leftover ↔
      ∃ start, TransGen (catalog.Links app pending fields) start start ∧
        ReflTransGen (catalog.Links app pending fields) start id := by
  rw [Digraph.mem_leftover_iff_transGen, edge_referenceGraph_eq_links]

/-- The left over types of the application rise, and only a pending type that is none of them
may follow. -/
theorem leftover_referenceGraph_rises (catalog : Catalog) (app : AppId) (pending : TypeId)
    (fields : List TypeField) : ∃ stored : List TypeId,
      (stored.Pairwise fun first second => first.key < second.key) ∧
      (∀ id ∈ stored, ∃ type ∈ catalog.ownedBy app, type.id = id) ∧
      ((catalog.referenceGraph app pending fields).leftover = stored ∨
        (catalog.referenceGraph app pending fields).leftover = stored ++ [pending] ∧
          ∀ type ∈ catalog.ownedBy app, type.id ≠ pending) := by
  have kept := Digraph.leftover_sublist_keys (catalog.referenceGraph app pending fields)
  have rises := Id.pairwise_rising ((catalog.ownedBy app).map CustomType.id)
  have owned : ∀ {id}, id ∈ Id.rising ((catalog.ownedBy app).map CustomType.id) ↔
      ∃ type ∈ catalog.ownedBy app, type.id = id := by
    intro id
    rw [Id.mem_rising, List.mem_map]
  rw [keys_referenceGraph, referenceNodes] at kept
  split at kept
  · exact ⟨_, rises.sublist kept, fun id hm => owned.mp (kept.subset hm), .inl rfl⟩
  · next absent =>
    obtain ⟨stored, last, joined, front, back⟩ := List.sublist_append_iff.mp kept
    refine ⟨stored, rises.sublist front, fun id hm => owned.mp (front.subset hm), ?_⟩
    rw [joined]
    rcases List.sublist_singleton.mp back with rfl | rfl
    · exact .inl (List.append_nil stored)
    · refine .inr ⟨rfl, fun type hm same => absent ?_⟩
      exact owned.mpr ⟨type, hm, same⟩

/-- Elimination leaves over, each once and in the order of the nodes, the nodes that some node on
a cycle leads to, so nothing exactly if there is no cycle; edges to what is no node do not count.
Hence the check for cycles passes exactly if no type refers back to itself, directly or through
others, once the fields of the pending one are replaced. If it fails, it lists the types that such
a type leads to: those of the application in rising order, and last the pending one if it is none
of them. -/
theorem leftover_reached_from_cycles :
    (∀ {κ : Type} [DecidableEq κ] (graph : Digraph κ),
      graph.leftover.Sublist graph.edges.keys ∧ graph.leftover.Nodup ∧
      (∀ node, node ∈ graph.leftover ↔
        ∃ start, TransGen graph.Edge start start ∧ ReflTransGen graph.Edge start node) ∧
      (graph.leftover = [] ↔ ∀ node, ¬ TransGen graph.Edge node node)) ∧
    ∀ (catalog : Catalog) (app : AppId) (pending : Option TypeId) (fields : List TypeField),
      (catalog.auditCycles app pending fields = .ok () ↔
        ∀ id, ¬ TransGen (catalog.Links app (pending.getD placeholder) fields) id id) ∧
      ∀ error, catalog.auditCycles app pending fields = .error error →
        ∃ involved, error = .cycle involved ∧
          (∀ id, id ∈ involved ↔ ∃ start,
            TransGen (catalog.Links app (pending.getD placeholder) fields) start start ∧
            ReflTransGen (catalog.Links app (pending.getD placeholder) fields) start id) ∧
          ∃ stored, (stored.Pairwise fun first second => first.key < second.key) ∧
            (∀ id ∈ stored, ∃ type ∈ catalog.ownedBy app, type.id = id) ∧
            (involved = stored ∨ involved = stored ++ [pending.getD placeholder] ∧
              ∀ type ∈ catalog.ownedBy app, type.id ≠ pending.getD placeholder) := by
  constructor
  · intro κ _ graph
    have kept := graph.leftover_sublist_keys
    refine ⟨kept, graph.distinct.sublist kept, fun _ => Digraph.mem_leftover_iff_transGen, ?_⟩
    rw [Digraph.leftover_eq_nil_iff]
    exact forall_congr' fun node => not_congr Digraph.onCycle_iff_transGen
  · intro catalog app pending fields
    refine ⟨auditCycles_eq_ok_iff_links, fun error failed => ?_⟩
    obtain ⟨-, rfl⟩ := auditCycles_eq_error_iff.mp failed
    refine ⟨_, rfl, fun id => mem_leftover_referenceGraph_iff, ?_⟩
    exact leftover_referenceGraph_rises catalog app (pending.getD placeholder) fields

/-- Two stations refer to each other and one of them to a halt; a siding refers to the halt, and
to what is no station. -/
def stations : Digraph Nat where
  edges := [(1, [2]), (2, [1, 3, 1]), (3, []), (4, [3, 9])]

/-- Depots and vans refer to each other, vans to drivers, who belong to another application, and
orders to depots. -/
def depots : Catalog where
  types := [⟨⟨4⟩, ⟨7⟩, "Order", ""⟩, ⟨⟨3⟩, ⟨7⟩, "Van", ""⟩, ⟨⟨1⟩, ⟨7⟩, "Depot", ""⟩,
    ⟨⟨2⟩, ⟨8⟩, "Driver", ""⟩]
  fields := [(TypeField.custom ⟨1⟩ ⟨1⟩ "vans" ⟨3⟩).asArray, TypeField.custom ⟨2⟩ ⟨3⟩ "home" ⟨1⟩,
    TypeField.custom ⟨3⟩ ⟨3⟩ "driver" ⟨2⟩, TypeField.custom ⟨4⟩ ⟨4⟩ "from" ⟨1⟩]

/-- A driver has a licence. -/
def licence : TypeField := TypeField.custom ⟨5⟩ ⟨2⟩ "licence" ⟨6⟩

/-- Orders, which refer to the cycle, are not listed; drivers, to whom it refers, come last. -/
theorem leftover_reached_from_cycles_depots :
    stations.leftover = [1, 2, 3] ∧
    (∀ node, node ∈ [1, 2, 3] ↔
      ∃ start, TransGen stations.Edge start start ∧ ReflTransGen stations.Edge start node) ∧
    depots.auditCycles ⟨7⟩ (some ⟨2⟩) [licence] = .error (.cycle [⟨1⟩, ⟨3⟩, ⟨2⟩]) ∧
    ∀ id, id ∈ [⟨1⟩, ⟨3⟩, ⟨2⟩] ↔
      ∃ start, TransGen (depots.Links ⟨7⟩ ⟨2⟩ [licence]) start start ∧
        ReflTransGen (depots.Links ⟨7⟩ ⟨2⟩ [licence]) start id := by
  obtain ⟨graphs, audits⟩ := leftover_reached_from_cycles
  have left : stations.leftover = [1, 2, 3] := by decide
  have failed : depots.auditCycles ⟨7⟩ (some ⟨2⟩) [licence] =
      .error (.cycle [⟨1⟩, ⟨3⟩, ⟨2⟩]) := by decide
  obtain ⟨involved, same, reached, -⟩ := (audits depots ⟨7⟩ (some ⟨2⟩) [licence]).2 _ failed
  obtain rfl := (ReferenceError.cycle.inj same).symm
  refine ⟨left, fun node => ?_, failed, reached⟩
  rw [← left]
  exact (graphs stations).2.2.1 node

end Catalog

end SchemaGate
