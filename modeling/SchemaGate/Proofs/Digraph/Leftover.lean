import Mathlib.Data.List.Perm.Subperm
import SchemaGate.Proofs.Digraph.Cycles

/-!
# What elimination leaves over

Every stage of elimination is balanced: the degree that it holds for a node is the
number of edges that lead to the node from nodes not taken yet, and the nodes of degree
zero are those taken and those that wait. Taking a node and releasing its targets one by
one keeps the balance, where the targets not released yet count as owed. Each step takes
a new node until none waits, so as many steps as there are nodes empty the queue. What
is left over then has a predecessor that is left over, and nothing taken lies on a cycle:
the leftover nodes are the ones that some cycle reaches.
-/

namespace SchemaGate

variable {κ : Type} [DecidableEq κ] {graph : Digraph κ}

namespace Elimination

/-- Counting an edge changes the number of its target alone. -/
theorem find?_countEdge (degrees : KeyedList κ Nat) (target node : κ) :
    KeyedList.find? node (countEdge degrees target) =
      (KeyedList.find? node degrees).map (· + if target = node then 1 else 0) := by
  unfold countEdge
  cases ht : KeyedList.find? target degrees with
  | none =>
    by_cases he : target = node
    · subst he
      simp [ht]
    · simp [he]
  | some degree =>
    by_cases he : target = node
    · subst he
      simp [ht, KeyedList.find?_insert_self]
    · simp [he, KeyedList.find?_insert_of_ne he]

/-- Counting an edge adds no nodes. -/
theorem keys_countEdge (degrees : KeyedList κ Nat) (target : κ) :
    KeyedList.keys (countEdge degrees target) = KeyedList.keys degrees := by
  unfold countEdge
  cases ht : KeyedList.find? target degrees with
  | none => rfl
  | some degree =>
    rw [KeyedList.keys_insert, if_pos (KeyedList.mem_keys_iff.mpr ⟨degree, ht⟩)]

/-- Counting edges adds to every node the edges that lead to it. -/
theorem find?_foldl_countEdge (targets : List κ) (degrees : KeyedList κ Nat) (node : κ) :
    KeyedList.find? node (targets.foldl countEdge degrees) =
      (KeyedList.find? node degrees).map (· + targets.count node) := by
  induction targets generalizing degrees with
  | nil => simp
  | cons target rest ih =>
    rw [List.foldl_cons, ih, find?_countEdge, Option.map_map]
    congr 1
    funext degree
    by_cases he : target = node
    · simp [he]
      omega
    · simp [he]

/-- Counting edges adds no nodes. -/
theorem keys_foldl_countEdge (targets : List κ) (degrees : KeyedList κ Nat) :
    KeyedList.keys (targets.foldl countEdge degrees) = KeyedList.keys degrees := by
  induction targets generalizing degrees with
  | nil => rfl
  | cons target rest ih => rw [List.foldl_cons, ih, keys_countEdge]

/-- The targets of the edges of nodes that were not taken. -/
def remaining (edges : KeyedList κ (List κ)) (taken : List κ) : List κ :=
  (edges.filter fun entry => entry.1 ∉ taken).flatMap Prod.snd

variable {edges : KeyedList κ (List κ)}

theorem mem_remaining_iff {taken : List κ} {target : κ} :
    target ∈ remaining graph.edges taken ↔
      ∃ source ∉ taken, ∃ targets, graph.edges.find? source = some targets ∧
        target ∈ targets := by
  simp only [remaining, List.mem_flatMap, List.mem_filter, decide_eq_true_eq]
  constructor
  · rintro ⟨⟨source, targets⟩, ⟨hm, ht⟩, hx⟩
    exact ⟨source, ht, targets, (KeyedList.find?_eq_some_iff graph.distinct).mpr hm, hx⟩
  · rintro ⟨source, ht, targets, hf, hx⟩
    exact ⟨(source, targets), ⟨KeyedList.mem_of_find?_eq_some hf, ht⟩, hx⟩

/-- Before anything is taken all edges remain. -/
theorem remaining_nil (edges : KeyedList κ (List κ)) :
    remaining edges [] = edges.values.flatten := by
  simp [remaining, KeyedList.values, List.flatMap_def]

theorem remaining_cons (source : κ) (targets : List κ) (rest : KeyedList κ (List κ))
    (taken : List κ) :
    remaining ((source, targets) :: rest) taken =
      if source ∈ taken then remaining rest taken else targets ++ remaining rest taken := by
  by_cases hm : source ∈ taken <;> simp [remaining, hm]

/-- Taking something that is no node removes no edges. -/
theorem remaining_snoc_of_not_mem {node : κ} (taken : List κ)
    (hk : node ∉ edges.keys) :
    remaining edges (taken ++ [node]) = remaining edges taken := by
  unfold remaining
  congr 1
  refine List.filter_congr fun entry hm => ?_
  have hne : entry.1 ≠ node := fun he => hk (List.mem_map.mpr ⟨entry, hm, he⟩)
  simp [hne]

/-- Taking a node removes its own edges and no others. -/
theorem count_remaining (hn : edges.keys.Nodup) {taken targets : List κ} {node : κ}
    (hf : edges.find? node = some targets) (ht : node ∉ taken) (target : κ) :
    (remaining edges taken).count target =
      (remaining edges (taken ++ [node])).count target + targets.count target := by
  induction edges with
  | nil => simp [KeyedList.find?] at hf
  | cons entry rest ih =>
    obtain ⟨source, others⟩ := entry
    obtain ⟨hs, hr⟩ := List.nodup_cons.mp hn
    rw [KeyedList.find?] at hf
    rw [remaining_cons, remaining_cons]
    split at hf
    · next he =>
      obtain rfl := Option.some.inj hf
      subst he
      rw [if_neg ht, if_pos (by simp), remaining_snoc_of_not_mem taken hs, List.count_append,
        Nat.add_comm]
    · next hne =>
      have later := ih hr hf
      by_cases hm : source ∈ taken
      · rw [if_pos hm, if_pos (by simp [hm]), later]
      · rw [if_neg hm, if_neg (by simp [hm, hne]), List.count_append, List.count_append, later,
          Nat.add_assoc]

/-- Between two releases a stage holds for every node the edges from nodes not taken and
the edges still owed, and exactly the nodes without any are taken or wait, each once. -/
structure Balanced (graph : Digraph κ) (owed : List κ) (stage : Elimination κ) : Prop where
  /-- The degree of a node counts the edges that remain and those that are owed. -/
  degree : ∀ node, KeyedList.find? node stage.degrees =
    (graph.edges.find? node).map fun _ =>
      (remaining graph.edges stage.sorted).count node + owed.count node
  /-- No node is taken twice, waits twice, or waits after it was taken. -/
  nodup : (stage.sorted ++ stage.queue).Nodup
  /-- The nodes of degree zero are taken or wait. -/
  ready : ∀ node, node ∈ stage.sorted ++ stage.queue ↔
    KeyedList.find? node stage.degrees = some 0

namespace Balanced

variable {stage : Elimination κ} {owed : List κ}

/-- A node has degree zero if no edges to it remain or are owed. -/
theorem ready_iff (h : Balanced graph owed stage) {node : κ} :
    node ∈ stage.sorted ++ stage.queue ↔
      node ∈ graph.edges.keys ∧ node ∉ remaining graph.edges stage.sorted ∧ node ∉ owed := by
  rw [h.ready, h.degree]
  cases hf : graph.edges.find? node with
  | none => simp [KeyedList.find?_eq_none_iff.mp hf]
  | some targets =>
    have hk := KeyedList.mem_keys_iff.mpr ⟨targets, hf⟩
    simp [hk, List.count_eq_zero]

/-- A target that is owed and is no node is not counted anywhere. -/
theorem of_find?_eq_none {target : κ} (h : Balanced graph (target :: owed) stage)
    (hf : graph.edges.find? target = none) : Balanced graph owed stage := by
  refine ⟨fun node => ?_, h.nodup, h.ready⟩
  rw [h.degree]
  by_cases he : target = node
  · subst he
    rw [hf, Option.map_none, Option.map_none]
  · rw [List.count_cons_of_ne he]

/-- A target that is owed and is a node neither waits nor was taken. -/
theorem not_mem_of_owed {target : κ} (h : Balanced graph (target :: owed) stage) :
    target ∉ stage.sorted ++ stage.queue := by
  intro hm
  exact (h.ready_iff.mp hm).2.2 List.mem_cons_self

/-- Releasing a target that is owed pays for it. -/
theorem release {target : κ} (h : Balanced graph (target :: owed) stage) :
    Balanced graph owed (stage.release target) := by
  have hd := h.degree target
  have fresh := h.not_mem_of_owed
  unfold Elimination.release
  cases hf : graph.edges.find? target with
  | none =>
    rw [hf, Option.map_none] at hd
    rw [hd]
    exact h.of_find?_eq_none hf
  | some targets =>
    rw [hf, Option.map_some, List.count_cons_self, ← Nat.add_assoc] at hd
    rw [hd]
    dsimp only
    rw [Nat.add_sub_cancel]
    refine ⟨fun node => ?_, ?_, fun node => ?_⟩
    · rw [KeyedList.find?_insert]
      by_cases he : target = node
      · subst he
        rw [if_pos rfl, hf, Option.map_some]
      · rw [if_neg he, h.degree, List.count_cons_of_ne he]
    · dsimp only
      split
      · rw [← List.append_assoc, ← List.concat_eq_append]
        exact h.nodup.concat fresh
      · exact h.nodup
    · have old := h.ready node
      rw [KeyedList.find?_insert]
      by_cases he : target = node
      · subst he
        rw [if_pos rfl]
        split
        · next hz => simp [hz]
        · next hz => exact iff_of_false fresh fun hs => hz (Option.some.inj hs)
      · have he' : ¬ node = target := fun e => he e.symm
        rw [if_neg he, ← old]
        split <;> simp [he']

/-- Releasing targets one by one pays for all of them. -/
theorem foldl_release {targets : List κ} (h : Balanced graph targets stage) :
    Balanced graph [] (targets.foldl Elimination.release stage) := by
  induction targets generalizing stage with
  | nil => exact h
  | cons target rest ih => exact ih h.release

/-- Taking the first node that waits owes the targets of its edges. -/
theorem take {node : κ} {rest : List κ}
    (h : Balanced graph [] stage) (hq : stage.queue = node :: rest) :
    Balanced graph ((graph.edges.find? node).getD [])
      { stage with queue := rest, sorted := stage.sorted ++ [node] } := by
  have moved : stage.sorted ++ [node] ++ rest = stage.sorted ++ stage.queue := by
    rw [hq, List.append_assoc, List.singleton_append]
  have hw : node ∈ stage.sorted ++ stage.queue := by simp [hq]
  have ht : node ∉ stage.sorted := by
    have apart := (List.nodup_append.mp h.nodup).2.2
    exact fun hm => apart node hm node (by simp [hq]) rfl
  obtain ⟨targets, hf⟩ := KeyedList.mem_keys_iff.mp (h.ready_iff.mp hw).1
  refine ⟨fun other => ?_, moved ▸ h.nodup, fun other => ?_⟩
  · rw [h.degree, count_remaining graph.distinct hf ht, hf]
    rfl
  · rw [← h.ready other]
    exact iff_of_eq (congrArg (other ∈ ·) moved)

/-- A step keeps the balance. -/
theorem step (h : Balanced graph [] stage) :
    Balanced graph [] (stage.step graph) := by
  unfold Elimination.step
  split
  · exact h
  · next node rest hq => exact (h.take hq).foldl_release

/-- Nothing is taken before the first step, and the nodes without edges to them wait. -/
theorem start (graph : Digraph κ) : Balanced graph [] (start graph) := by
  have found : ∀ node, KeyedList.find? node (inDegrees graph) =
      (graph.edges.find? node).map fun _ => (remaining graph.edges []).count node := by
    intro node
    rw [inDegrees, find?_foldl_countEdge, KeyedList.find?_map fun _ => 0, Option.map_map,
      remaining_nil]
    simp only [Function.comp_def, Nat.zero_add]
  have keys : (inDegrees graph).keys = graph.edges.keys := by
    rw [inDegrees, keys_foldl_countEdge]
    simp [KeyedList.keys]
  have nodup : (inDegrees graph).keys.Nodup := keys ▸ graph.distinct
  refine ⟨fun node => ?_, ?_, fun node => ?_⟩
  · exact found node
  · exact nodup.sublist (List.filter_sublist.map _)
  · change node ∈ ((inDegrees graph).filter fun entry => entry.2 == 0).map Prod.fst ↔
      KeyedList.find? node (inDegrees graph) = some 0
    rw [KeyedList.find?_eq_some_iff nodup]
    simp

/-- Nodes that are taken lie on no cycle, and so does the next one. -/
theorem not_onCycle_of_ready {node : κ} (h : Balanced graph owed stage)
    (hs : ∀ node ∈ stage.sorted, ¬ graph.OnCycle node)
    (hw : node ∈ stage.sorted ++ stage.queue) : ¬ graph.OnCycle node := by
  intro hc
  obtain ⟨before, hb, -, targets, hf, hm⟩ := hc.exists_predecessor
  refine (h.ready_iff.mp hw).2.1 (mem_remaining_iff.mpr ⟨before, ?_, targets, hf, hm⟩)
  exact fun ht => hs before ht hb

end Balanced

/-- Releasing targets takes no nodes. -/
theorem sorted_foldl_release (targets : List κ) (stage : Elimination κ) :
    (targets.foldl release stage).sorted = stage.sorted := by
  induction targets generalizing stage with
  | nil => rfl
  | cons target rest ih =>
    rw [List.foldl_cons, ih]
    unfold release
    cases KeyedList.find? target stage.degrees <;> rfl

/-- A step takes the first node that waits. -/
theorem sorted_step {stage : Elimination κ} {node : κ} {rest : List κ}
    (hq : stage.queue = node :: rest) :
    (step graph stage).sorted = stage.sorted ++ [node] := by
  rw [step, hq]
  exact sorted_foldl_release _ _

/-- Where nothing waits a step does nothing. -/
theorem step_of_queue_eq_nil {stage : Elimination κ} (hq : stage.queue = []) :
    step graph stage = stage := by
  rw [step, hq]

/-- Each step takes one more node until none waits. -/
theorem length_sorted_after (graph : Digraph κ) (steps : Nat) :
    (after graph steps).queue = [] ∨ (after graph steps).sorted.length = steps := by
  induction steps with
  | zero => exact .inr rfl
  | succ steps ih =>
    cases hq : (after graph steps).queue with
    | nil =>
      rw [after, step_of_queue_eq_nil hq]
      exact .inl hq
    | cons node rest =>
      rw [hq] at ih
      have taken := ih.resolve_left (List.cons_ne_nil node rest)
      rw [after, sorted_step hq, List.length_append, taken]
      exact .inr rfl

/-- Every stage of elimination is balanced. -/
theorem balanced_after (graph : Digraph κ) (steps : Nat) :
    Balanced graph [] (after graph steps) := by
  induction steps with
  | zero => exact Balanced.start graph
  | succ steps ih => exact ih.step

/-- No node that elimination takes lies on a cycle. -/
theorem not_onCycle_of_mem_sorted (graph : Digraph κ) (steps : Nat) :
    ∀ node ∈ (after graph steps).sorted, ¬ graph.OnCycle node := by
  induction steps with
  | zero => exact fun node hm => absurd hm List.not_mem_nil
  | succ steps ih =>
    intro node hm
    cases hq : (after graph steps).queue with
    | nil =>
      rw [after, step_of_queue_eq_nil hq] at hm
      exact ih node hm
    | cons next rest =>
      rw [after, sorted_step hq] at hm
      refine (balanced_after graph steps).not_onCycle_of_ready ih ?_
      rw [hq]
      rcases List.mem_append.mp hm with hm | hm
      · exact List.mem_append_left _ hm
      · exact List.mem_append_right _ (by simpa using Or.inl (List.mem_singleton.mp hm))

/-- As many steps as there are nodes empty the queue. -/
theorem queue_after_length (graph : Digraph κ) :
    (after graph graph.edges.length).queue = [] := by
  rcases length_sorted_after graph graph.edges.length with hq | hl
  · exact hq
  · have balanced := balanced_after graph graph.edges.length
    have nodes : (after graph graph.edges.length).sorted ++ (after graph graph.edges.length).queue ⊆
        graph.edges.keys := fun node hm => (balanced.ready_iff.mp hm).1
    have bound := (List.subperm_of_subset balanced.nodup nodes).length_le
    rw [List.length_append, hl, KeyedList.keys, List.length_map] at bound
    exact List.eq_nil_of_length_eq_zero (by omega)

end Elimination

namespace Digraph

/-- The leftover nodes stand in the order of all nodes. -/
theorem leftover_eq_filter (graph : Digraph κ) :
    graph.leftover = graph.edges.keys.filter fun node => node ∈ graph.leftover := by
  conv_lhs => rw [leftover]
  refine List.filter_congr fun node hk => ?_
  simp [leftover, hk]

/-- In the end a node is taken exactly if all its predecessors are. -/
theorem mem_sorted_iff {node : κ} (hk : node ∈ graph.edges.keys) :
    node ∈ (Elimination.after graph graph.edges.length).sorted ↔
      ∀ before, graph.Edge before node →
        before ∈ (Elimination.after graph graph.edges.length).sorted := by
  have last := Elimination.balanced_after graph graph.edges.length
  have ready : node ∈ (Elimination.after graph graph.edges.length).sorted ++
      (Elimination.after graph graph.edges.length).queue ↔ _ := last.ready_iff
  rw [Elimination.queue_after_length graph, List.append_nil] at ready
  rw [ready, Elimination.mem_remaining_iff]
  constructor
  · rintro ⟨-, hr, -⟩ before ⟨-, targets, hf, hm⟩
    by_contra hb
    exact hr ⟨before, hb, targets, hf, hm⟩
  · intro h
    refine ⟨hk, ?_, List.not_mem_nil⟩
    rintro ⟨before, hb, targets, hf, hm⟩
    exact hb (h before ⟨hk, targets, hf, hm⟩)

/-- Elimination leaves over the nodes that some cycle reaches. -/
theorem mem_leftover_iff {node : κ} :
    node ∈ graph.leftover ↔ ∃ start, graph.OnCycle start ∧ graph.Reaches start node := by
  have left : ∀ {node}, node ∈ graph.leftover ↔ node ∈ graph.edges.keys ∧
      node ∉ (Elimination.after graph graph.edges.length).sorted := by
    simp [leftover]
  constructor
  · intro h
    refine exists_onCycle_reaches (fun node hl => ?_) h
    obtain ⟨hk, hs⟩ := left.mp hl
    rw [mem_sorted_iff hk] at hs
    push Not at hs
    obtain ⟨before, he, hb⟩ := hs
    exact ⟨before, left.mpr ⟨he.source_mem, hb⟩, he⟩
  · rintro ⟨start, hc, hr⟩
    have hs : start ∉ (Elimination.after graph graph.edges.length).sorted :=
      fun hm => Elimination.not_onCycle_of_mem_sorted graph graph.edges.length start hm hc
    clear hc
    induction hr with
    | refl hk => exact left.mpr ⟨hk, hs⟩
    | step he hr ih =>
      exact ih fun hm => hs ((mem_sorted_iff he.target_mem).mp hm _ he)

/-- What is left over depends on the nodes and on which edges there are between them, and not on
the order or the number of the edges. -/
theorem leftover_congr {other : Digraph κ} (keys : graph.edges.keys = other.edges.keys)
    (edges : ∀ source target, graph.Edge source target ↔ other.Edge source target) :
    graph.leftover = other.leftover := by
  have same : ∀ node, node ∈ graph.leftover ↔ node ∈ other.leftover := by
    intro node
    rw [mem_leftover_iff, mem_leftover_iff]
    refine exists_congr fun start => and_congr ?_ (reaches_congr keys edges)
    exact exists_congr fun next => and_congr (edges start next) (reaches_congr keys edges)
  rw [leftover_eq_filter graph, leftover_eq_filter other, keys]
  exact List.filter_congr fun node _ => decide_eq_decide.mpr (same node)

/-- Nothing is left over exactly if no node lies on a cycle. -/
theorem leftover_eq_nil_iff : graph.leftover = [] ↔ graph.Acyclic := by
  rw [List.eq_nil_iff_forall_not_mem]
  simp only [mem_leftover_iff]
  constructor
  · intro h node hc
    exact h node ⟨node, hc, .refl hc.node_mem⟩
  · rintro h node ⟨start, hc, -⟩
    exact h start hc

end Digraph

end SchemaGate
