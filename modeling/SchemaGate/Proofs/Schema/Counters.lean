import Mathlib.Algebra.GroupWithZero.Nat
import Mathlib.Data.Finset.Card
import SchemaGate.Proofs.Schema.FirstViolation
import SchemaGate.Schema.Questions

/-!
# What the counters of a check count

The memory of a check holds the nodes that it walked, each instance once, and with a node
all nodes that its walk asked (`Memory.Tracks`). Asking some nodes one after the other
walks new ones only where nothing is remembered; every question, be it asked by the check
or by a walk, is either a hit or a miss (`Memory.Asked`). So the misses of a check count
the nodes that it had to walk, and hits and misses together count the nulls that met
object nodes and what the walks asked.
-/

namespace SchemaGate

variable {ι : Type}

/-- What is remembered of a node once it is walked. -/
def Node.remembered (node : Node ι) : ι × Bool := (node.label, decide node.Requires)

theorem keys_map_remembered (walked : List (Node ι)) :
    KeyedList.keys (walked.map Node.remembered) = walked.map Node.label := by
  simp [KeyedList.keys, Node.remembered]

namespace Memory

/-- The memory holds right answers for the given nodes of a schema. -/
structure Tracks (root : Node ι) (walked : List (Node ι)) (memory : Memory ι) : Prop where
  /-- It remembers these nodes and nothing else. -/
  known : memory.known = walked.map Node.remembered
  /-- No instance is remembered twice. -/
  distinct : (walked.map Node.label).Nodup
  /-- They stand in the schema. -/
  within : ∀ node ∈ walked, node.Within root
  /-- What the walk of one of them asked is among them. -/
  closed : ∀ node ∈ walked, ∀ child ∈ node.asks, child ∈ walked

/-- Asking the given nodes one after the other takes the first memory, which tracks `walked`,
to the second one; `new` are the nodes that are walked for it. -/
structure Asked (root : Node ι) (questions walked new : List (Node ι))
    (before after : Memory ι) : Prop where
  /-- The new nodes are remembered along with the earlier ones. -/
  tracks : Tracks root (new ++ walked) after
  /-- Each new node is a miss. -/
  misses : after.misses = before.misses + new.length
  /-- Each question is a hit or a miss, as is each one that a new walk asks. -/
  total : after.hits + after.misses = before.hits + before.misses + questions.length +
    (new.map fun node => node.asks.length).sum
  /-- Nodes are walked for a question alone. -/
  origin : ∀ node ∈ new, ∃ question ∈ questions, question.Walks node
  /-- Every question is answered by a walk, now or earlier. -/
  answered : ∀ question ∈ questions, question ∈ new ++ walked

variable {root : Node ι} {walked : List (Node ι)} {memory : Memory ι}

theorem tracks_empty (root : Node ι) : Tracks root [] {} where
  known := rfl
  distinct := List.nodup_nil
  within := fun _ h => absurd h List.not_mem_nil
  closed := fun _ h => absurd h List.not_mem_nil

/-- Asking nothing changes nothing. -/
theorem Tracks.asked_nil (h : Tracks root walked memory) :
    Asked root [] walked [] memory memory where
  tracks := h
  misses := rfl
  total := rfl
  origin := fun _ h => absurd h List.not_mem_nil
  answered := fun _ h => absurd h List.not_mem_nil

/-- Questions are asked in two goes. -/
theorem Asked.append {first second earlier later : List (Node ι)} {before middle after : Memory ι}
    (h : Asked root first walked earlier before middle)
    (h' : Asked root second (earlier ++ walked) later middle after) :
    Asked root (first ++ second) walked (later ++ earlier) before after where
  tracks := by
    rw [List.append_assoc]
    exact h'.tracks
  misses := by
    rw [h'.misses, h.misses, List.length_append]
    omega
  total := by
    rw [h'.total, h.total, List.length_append, List.map_append, List.sum_append]
    omega
  origin := by
    intro node hm
    rcases List.mem_append.mp hm with hm | hm
    · obtain ⟨question, hq, hw⟩ := h'.origin node hm
      exact ⟨question, List.mem_append_right _ hq, hw⟩
    · obtain ⟨question, hq, hw⟩ := h.origin node hm
      exact ⟨question, List.mem_append_left _ hq, hw⟩
  answered := by
    intro question hm
    rw [List.append_assoc]
    rcases List.mem_append.mp hm with hm | hm
    · exact List.mem_append_right _ (h.answered question hm)
    · exact h'.answered question hm

/-- The counters do not matter to what is remembered. -/
theorem Tracks.of_known_eq {after : Memory ι} (h : Tracks root walked memory)
    (he : after.known = memory.known) : Tracks root walked after where
  known := he.trans h.known
  distinct := h.distinct
  within := h.within
  closed := h.closed

/-- With a node all nodes are remembered that are walked for it. -/
theorem Tracks.mem_of_walks (h : Tracks root walked memory) {node other : Node ι}
    (hw : node.Walks other) (hm : node ∈ walked) : other ∈ walked := by
  induction hw with
  | self => exact hm
  | ask ha _ ih => exact ih (h.closed _ hm _ ha)

/-- A question about a remembered node is a hit. -/
theorem Tracks.asked_hit (h : Tracks root walked memory) {node : Node ι} (hm : node ∈ walked) :
    Asked root [node] walked [] memory memory.hit where
  tracks := h.of_known_eq rfl
  misses := rfl
  total := by
    simp only [hit, List.length_singleton, List.map_nil, List.sum_nil]
    omega
  origin := fun _ h => absurd h List.not_mem_nil
  answered := by
    rw [List.forall_mem_singleton]
    exact hm

variable [DecidableEq ι]

/-- What is remembered under the label of a node is the answer for that node. -/
theorem Tracks.of_find?_eq_some (hc : root.Coherent) (h : Tracks root walked memory)
    {node : Node ι} (hw : node.Within root) {answer : Bool}
    (hf : KeyedList.find? node.label memory.known = some answer) :
    node ∈ walked ∧ answer = decide node.Requires := by
  have hm := KeyedList.mem_of_find?_eq_some hf
  rw [h.known, List.mem_map] at hm
  obtain ⟨other, ho, he⟩ := hm
  obtain ⟨hl, ha⟩ := Prod.mk.inj he
  obtain rfl := hc other node (h.within other ho) hw hl
  exact ⟨ho, ha.symm⟩

/-- Tracked answers are right. -/
theorem Tracks.sound (hc : root.Coherent) (h : Tracks root walked memory) :
    Sound root memory := by
  intro node answer hw _ hf
  rw [(h.of_find?_eq_some hc hw hf).2, decide_eq_true_iff]

/-- A question about a node that is not remembered is a miss, whose walk asks what the node
asks and is remembered in the end. -/
theorem Asked.of_miss (hc : root.Coherent) {node : Node ι} (hw : node.Within root)
    (fresh : KeyedList.find? node.label memory.known = none)
    {answer : Bool} (right : answer = true ↔ node.Requires)
    {new : List (Node ι)} {after : Memory ι}
    (h : Asked root node.asks walked new memory.miss after)
    (ht : Tracks root walked memory) :
    Asked root [node] walked (node :: new) memory (after.learn node.label answer) where
  tracks := by
    refine ⟨?_, ?_, ?_, ?_⟩
    · have remembered : node.remembered = (node.label, answer) := by
        rw [Node.remembered, Prod.mk.injEq, Bool.eq_iff_iff, decide_eq_true_iff]
        exact ⟨rfl, right.symm⟩
      rw [learn, h.tracks.known, List.cons_append, List.map_cons, remembered]
    · rw [List.cons_append, List.map_cons, List.nodup_cons]
      refine ⟨fun hm => ?_, h.tracks.distinct⟩
      obtain ⟨other, ho, hl⟩ := List.mem_map.mp hm
      obtain rfl := hc other node (h.tracks.within other ho) hw hl
      rcases List.mem_append.mp ho with ho | ho
      · -- the walk of a node comes to nodes below it, never to the node itself
        obtain ⟨child, ha, walks⟩ := h.origin other ho
        exact Node.not_within_of_mem_asks ha walks.within
      · rw [KeyedList.find?_eq_none_iff, ht.known, keys_map_remembered] at fresh
        exact fresh (List.mem_map_of_mem ho)
    · rw [List.cons_append, List.forall_mem_cons]
      exact ⟨hw, h.tracks.within⟩
    · rw [List.cons_append, List.forall_mem_cons]
      refine ⟨fun child ha => List.mem_cons_of_mem _ (h.answered child ha), ?_⟩
      exact fun other ho child ha => List.mem_cons_of_mem _ (h.tracks.closed other ho child ha)
  misses := by
    have inner := h.misses
    simp only [learn, miss, List.length_cons] at inner ⊢
    omega
  total := by
    have inner := h.total
    simp only [learn, miss, List.length_singleton, List.map_cons, List.sum_cons] at inner ⊢
    omega
  origin := by
    rw [List.forall_mem_cons]
    refine ⟨⟨node, List.mem_singleton_self node, .self node⟩, fun other ho => ?_⟩
    obtain ⟨child, ha, walks⟩ := h.origin other ho
    exact ⟨node, List.mem_singleton_self node, .ask ha walks⟩
  answered := by
    rw [List.forall_mem_singleton]
    exact List.mem_cons_self

end Memory

namespace Node

open Memory

variable [DecidableEq ι] {root : Node ι}

/-- Only object nodes are asked. -/
theorem requires_of_kind_ne {node : Node ι} (hk : node.kind ≠ .object) (memory : Memory ι) :
    requires node memory = (false, memory) := by
  cases node
  exact if_neg hk

mutual

/-- Asking an object node keeps account. -/
theorem exists_asked_requires (hc : root.Coherent) :
    (node : Node ι) → node.Within root → node.kind = .object →
      ∀ walked memory, Tracks root walked memory →
      ∃ new, Asked root [node] walked new memory (requires node memory).2
  | ⟨label, kind, description, properties, required, items⟩, hw, hk, walked, memory, ht => by
    obtain rfl : kind = .object := hk
    have right := (requires_eq_true_iff hc _ hw memory (ht.sound hc)).1
    rw [requires, if_pos rfl] at right ⊢
    cases hf : KeyedList.find? label memory.known with
    | some answer => exact ⟨[], ht.asked_hit (ht.of_find?_eq_some hc hw hf).1⟩
    | none =>
      have miss : Tracks root walked memory.miss := ht.of_known_eq rfl
      simp only [hf] at right ⊢
      by_cases hr : required.isEmpty
      · have asks : asks ⟨label, .object, description, properties, required, items⟩ =
          examined properties := if_pos hr
        obtain ⟨new, h⟩ := exists_asked_anyRequires hc properties
          (fun _ hm => within_of_mem_properties hw hm) walked memory.miss miss
        rw [if_neg fun own => (requiresOwn_iff.mp own).2 (NameSet.isEmpty_iff.mp hr)] at right ⊢
        exact ⟨_, Asked.of_miss hc hw hf right (asks ▸ h) ht⟩
      · have asks : asks ⟨label, .object, description, properties, required, items⟩ = [] :=
          if_neg hr
        rw [if_pos (requiresOwn_iff.mpr ⟨rfl, fun none => hr (NameSet.isEmpty_iff.mpr none)⟩)]
          at right ⊢
        exact ⟨_, Asked.of_miss hc hw hf right (asks ▸ miss.asked_nil) ht⟩

/-- So does asking object nodes among properties, up to the first that requires a name. -/
theorem exists_asked_anyRequires (hc : root.Coherent) :
    (properties : List (String × Node ι)) → (∀ property ∈ properties, property.2.Within root) →
      ∀ walked memory, Tracks root walked memory →
      ∃ new, Asked root (examined properties) walked new memory
        (anyRequires properties memory).2
  | [], _, walked, memory, ht => ⟨[], ht.asked_nil⟩
  | (name, child) :: rest, hw, walked, memory, ht => by
    have inside := hw (name, child) List.mem_cons_self
    have later := exists_asked_anyRequires hc rest fun _ hm => hw _ (List.mem_cons_of_mem _ hm)
    rw [examined_cons, anyRequires]
    by_cases hk : child.kind = .object
    · obtain ⟨first, h⟩ := exists_asked_requires hc child inside hk walked memory ht
      have right := (requires_eq_true_iff hc child inside memory (ht.sound hc)).1
      rw [if_pos hk]
      by_cases hr : child.Requires
      · rw [if_pos hr, if_pos (right.mpr hr)]
        exact ⟨first, h⟩
      · rw [if_neg hr, if_neg (mt right.mp hr)]
        obtain ⟨second, h'⟩ := later _ _ h.tracks
        exact ⟨second ++ first, h.append h'⟩
    · rw [if_neg hk, requires_of_kind_ne hk]
      exact later walked memory ht

end

end Node

namespace Place

open Memory

variable [DecidableEq ι] {root : Node ι}

/-- A look at a place keeps account of the question there. -/
theorem exists_asked_look (hc : root.Coherent) {place : Place ι} (hw : place.node.Within root)
    {walked : List (Node ι)} {memory : Memory ι} (ht : Tracks root walked memory) :
    ∃ new, Asked root (if place.isQuestion then [place.node] else []) walked new memory
      (place.look memory).2 := by
  unfold look
  split
  · next hq =>
    have object := (isQuestion_iff.mp hq).1
    exact Node.exists_asked_requires hc place.node hw object walked memory ht
  · exact ⟨[], ht.asked_nil⟩

/-- A walk along places keeps account of the questions there. -/
theorem exists_asked_along (hc : root.Coherent) {places : List (Place ι)}
    (hw : ∀ place ∈ places, place.node.Within root)
    {walked : List (Node ι)} {memory : Memory ι} (ht : Tracks root walked memory) :
    ∃ new, Asked root (questions places) walked new memory (along places memory).2 := by
  induction places generalizing walked memory with
  | nil => exact ⟨[], ht.asked_nil⟩
  | cons place rest ih =>
    have inside := hw place List.mem_cons_self
    have reported := (look_eq_violation? hc inside (ht.sound hc)).1
    obtain ⟨first, h⟩ := exists_asked_look hc inside ht
    rw [questions_cons, isWrong, ← reported, along]
    cases (place.look memory).1 with
    | some violation =>
      rw [Option.isSome_some, if_pos rfl, List.append_nil]
      exact ⟨first, h⟩
    | none =>
      obtain ⟨second, h'⟩ := ih (fun other hm => hw other (List.mem_cons_of_mem _ hm)) h.tracks
      exact ⟨second ++ first, h.append h'⟩

end Place

/-- A check asks what its schema and its value make it ask. -/
theorem Checker.exists_asked_run [DecidableEq ι] {schema : Node ι} (hc : schema.Coherent)
    (value : Json) :
    ∃ evaluated, Memory.Asked schema (Place.questions (schema.places value)) [] evaluated {}
      (run {} schema value).memory := by
  rw [run, Node.visit_eq_along]
  exact Place.exists_asked_along hc (fun _ hm => Node.within_of_mem_places hm)
    (Memory.tracks_empty schema)

namespace Memory

variable {schema : Node ι} {value : Json} {evaluated : List (Node ι)} {before after : Memory ι}

/-- What is walked for the questions of a check is what the check needs. -/
theorem Asked.mem_iff_evaluates
    (h : Asked schema (Place.questions (schema.places value)) [] evaluated before after)
    {node : Node ι} : node ∈ evaluated ↔ schema.Evaluates value node := by
  have all := h.tracks
  have answered := h.answered
  rw [List.append_nil] at all answered
  constructor
  · intro hm
    obtain ⟨question, hq, walks⟩ := h.origin node hm
    obtain ⟨place, hp, null, rfl⟩ := Node.mem_questions_places_iff.mp hq
    exact ⟨place, hp, null, walks⟩
  · rintro ⟨place, hp, null, walks⟩
    have asked := answered place.node (Node.mem_questions_places_iff.mpr ⟨place, hp, null, rfl⟩)
    exact all.mem_of_walks walks asked

/-- No more nodes are walked for a check than object nodes are reached from its schema. -/
theorem Asked.length_le [DecidableEq ι]
    (h : Asked schema (Place.questions (schema.places value)) [] evaluated before after) :
    evaluated.length ≤
      ((schema.reachable.filter fun node => node.kind = .object).map Node.label).toFinset.card := by
  have distinct := h.tracks.distinct
  rw [List.append_nil] at distinct
  rw [← List.length_map Node.label, ← List.toFinset_card_of_nodup distinct]
  refine Finset.card_le_card fun label hl => ?_
  obtain ⟨node, hm, rfl⟩ := List.mem_map.mp (List.mem_toFinset.mp hl)
  obtain ⟨object, reached⟩ := (h.mem_iff_evaluates.mp hm).kind_and_mem
  rw [List.mem_toFinset]
  exact List.mem_map_of_mem (List.mem_filter.mpr ⟨reached, decide_eq_true object⟩)

end Memory

/-- Walks ask only for nodes without required names of their own. -/
theorem sum_length_asks (nodes : List (Node ι)) :
    (nodes.map fun node => node.asks.length).sum =
      ((nodes.filter fun node => node.required.isEmpty).map fun node =>
        (Node.examined node.properties).length).sum := by
  induction nodes with
  | nil => rfl
  | cons node rest ih =>
    rw [List.map_cons, List.sum_cons, ih, List.filter_cons, Node.asks]
    split
    · rw [List.map_cons, List.sum_cons]
    · rw [List.length_nil, Nat.zero_add]

variable [DecidableEq ι]

/-- The checkers after each of some checks in a row. -/
def Checker.runs : Checker ι → List (Node ι × Json) → List (Checker ι)
  | _, [] => []
  | checker, (schema, value) :: rest =>
    let after := checker.run schema value
    after :: runs after rest

theorem Checker.runs_eq_map (checker : Checker ι) (calls : List (Node ι × Json)) :
    checker.runs calls = calls.map fun call => Checker.run {} call.1 call.2 := by
  induction calls generalizing checker with
  | nil => rfl
  | cons call rest ih =>
    rw [List.map_cons, ← ih]
    rfl

/-- Of some checks in a row each one leaves what a fresh checker leaves: outcome, violation
and counters. In each one exactly the object nodes that its questions need are walked, each
instance once. The misses count these nodes, of which there are no more than object nodes
reached from the schema. Hits and misses together count the nulls met at object nodes and,
for each walked node without required names of its own, its object nodes among the
properties up to the first that requires a name. -/
theorem runs_count_questions (checker : Checker ι) (calls : List (Node ι × Json))
    (hc : ∀ call ∈ calls, call.1.Coherent) :
    List.Forall₂ (fun call after => after = Checker.run {} call.1 call.2 ∧
      ∃ evaluated : List (Node ι),
        (∀ node, node ∈ evaluated ↔ call.1.Evaluates call.2 node) ∧
        (evaluated.map Node.label).Nodup ∧
        KeyedList.keys after.memory.known = evaluated.map Node.label ∧
        after.memory.misses = evaluated.length ∧
        after.memory.misses ≤ ((call.1.reachable.filter fun node => node.kind = .object).map
          Node.label).toFinset.card ∧
        after.memory.hits + after.memory.misses =
          (call.1.visited call.2).countP Place.isQuestion +
          ((evaluated.filter fun node => node.required.isEmpty).map fun node =>
            (Node.examined node.properties).length).sum)
      calls (checker.runs calls) := by
  rw [checker.runs_eq_map, List.forall₂_map_right_iff, List.forall₂_same]
  rintro ⟨schema, value⟩ hm
  obtain ⟨evaluated, h⟩ := Checker.exists_asked_run (hc _ hm) value
  have all := h.tracks
  rw [List.append_nil] at all
  have misses := h.misses.trans (Nat.zero_add _)
  refine ⟨rfl, evaluated, fun node => h.mem_iff_evaluates, all.distinct, ?_, misses, ?_, ?_⟩
  · rw [all.known, keys_map_remembered]
  · exact misses.trans_le h.length_le
  · rw [h.total, sum_length_asks, Place.questions, List.length_map,
      ← List.countP_eq_length_filter, Nat.zero_add, Nat.zero_add, Node.visited]

/-- A residence needs no names. -/
def residence : NumberedSchema := { label := 2, kind := .object }

/-- A resident lives and works at residences, which share one node. -/
def resident : NumberedSchema :=
  { label := 1, kind := .object, properties := [("home", residence), ("work", residence)] }

/-- A list of residents. -/
def residents : NumberedSchema := { label := 0, kind := .array, items := some resident }

theorem coherent_residents : residents.Coherent := by
  refine Node.coherent_of_instances [residents, resident, residence] (by decide) (by simp) ?_ ?_
  · have none : residents.properties = [] ∧ residence.properties = [] := ⟨rfl, rfl⟩
    have both : ∀ property ∈ resident.properties, property.2 = residence := by simp [resident]
    simp only [List.forall_mem_cons, none]
    exact ⟨by simp, fun property hp => by simp [both property hp], by simp, by simp⟩
  · simp [residents, resident, residence]

/-- Residents of whom nothing is known cost two walks, however many they are. A node of the
next schema bears the label of a node of the first one and is asked anew. -/
theorem runs_count_questions_residents :
    residents.Coherent ∧ customer.Coherent ∧
    ∃ first second, Checker.runs {} [(residents, .array [.null, .null, .null]),
        (customer, .object [("billing", .null)])] = [first, second] ∧
      (first.passed, first.memory.misses, first.memory.hits) = (true, 2, 3) ∧
      (second.passed, second.memory.misses, second.memory.hits) = (false, 1, 0) ∧
      ∃ evaluated : List NumberedSchema, evaluated.length = 2 ∧
        ∀ node, node ∈ evaluated ↔ residents.Evaluates (.array [.null, .null, .null]) node := by
  have counted := runs_count_questions {} [(residents, .array [.null, .null, .null]),
    (customer, .object [("billing", .null)])] (by simp [coherent_residents, coherent_customer])
  obtain ⟨-, evaluated, needed, -, -, misses, -⟩ := (List.forall₂_cons.mp counted).1
  exact ⟨coherent_residents, coherent_customer, _, _, rfl, by decide, by decide, evaluated,
    misses.symm, needed⟩

end SchemaGate
