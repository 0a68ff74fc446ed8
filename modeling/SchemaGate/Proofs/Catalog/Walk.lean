import SchemaGate.Catalog.Unfolding
import SchemaGate.Proofs.Catalog.ReferenceGraph

/-!
# The walk that an unfolding takes

Unfolding a type meets types and fields in depth-first order: a type, then its fields in
storage order, and below each field that may still be followed the type that it refers to.
The walk here reads this order off the records and does not stop at anything that is wrong;
what is wrong at one of its moments is said of that moment alone (`offence?`).
-/

namespace SchemaGate

/-- What splits two joined lists in front of an entry splits one of them. -/
theorem append_eq_append_cons_cases {α : Type} {front back before after : List α} {entry : α}
    (h : front ++ back = before ++ entry :: after) :
    (∃ rest, front = before ++ entry :: rest ∧ after = rest ++ back) ∨
    ∃ more, before = front ++ more ∧ back = more ++ entry :: after := by
  rcases List.append_eq_append_iff.mp h with ⟨more, hb, ha⟩ | ⟨rest, hf, hr⟩
  · exact .inr ⟨more, hb, ha⟩
  · cases rest with
    | nil => exact .inr ⟨[], by simpa using hf.symm, hr.symm⟩
    | cons first rest =>
      obtain ⟨rfl, rfl⟩ := List.cons.inj hr
      exact .inl ⟨rest, hf, rfl⟩

/-- What splits the lists of several items in front of an entry splits the list of one item. -/
theorem exists_of_flatMap_eq_append_cons {α β : Type} {lists : α → List β} {items : List α}
    {before after : List β} {entry : β} (h : items.flatMap lists = before ++ entry :: after) :
    ∃ item ∈ items, ∃ front inner rest back, lists item = inner ++ entry :: rest ∧
      before = front ++ inner ∧ after = rest ++ back := by
  induction items generalizing before with
  | nil => simp at h
  | cons item items ih =>
    rw [List.flatMap_cons] at h
    rcases append_eq_append_cons_cases h with ⟨rest, here, ha⟩ | ⟨more, hb, later⟩
    · exact ⟨item, List.mem_cons_self, [], before, rest, _, here, rfl, ha⟩
    · obtain ⟨other, ho, front, inner, rest, back, hl, rfl, ha⟩ := ih later
      refine ⟨other, List.mem_cons_of_mem item ho, lists item ++ front, inner, rest, back, hl, ?_,
        ha⟩
      rw [hb, List.append_assoc]

/-- What happens on a walk, behind some number of references. -/
inductive Moment where
  /-- A type is met. -/
  | type (depth : Nat) (id : TypeId)
  /-- A field is met. -/
  | field (depth : Nat) (field : TypeField)
  /-- A field is left, with everything below it. -/
  | done (depth : Nat) (field : TypeField)
  deriving DecidableEq

namespace Catalog

/-- The walk through a type: `inside` walks below a field. -/
def typeWalk (catalog : Catalog) (inside : TypeField → List Moment) (depth : Nat) (id : TypeId) :
    List Moment :=
  .type depth id :: (catalog.fieldsOf id).flatMap fun field =>
    .field depth field :: (inside field ++ [.done depth field])

/-- The walk from a type that is met behind `depth` references, following `rest` more. -/
def walk (catalog : Catalog) : (depth rest : Nat) → TypeId → List Moment
  | depth, 0, id => catalog.typeWalk (fun _ => []) depth id
  | depth, rest + 1, id =>
    catalog.typeWalk (fun field => (referencesOf [field]).flatMap (walk catalog (depth + 1) rest))
      depth id

/-- The walk below a field of a type that is met behind `depth` references. -/
def walkInside (catalog : Catalog) (depth : Nat) (field : TypeField) : (rest : Nat) → List Moment
  | 0 => []
  | rest + 1 => (referencesOf [field]).flatMap (catalog.walk (depth + 1) rest)

/-- What is wrong at a moment: a type that does not exist, a field at the bound, or below the
bound a custom field that refers to nothing. -/
def offence? (catalog : Catalog) (limit : Nat) : Moment → Option UnfoldError
  | .type _ id => if catalog.type? id = none then some (.typeNotFound id) else none
  | .field depth field =>
    if limit ≤ depth then some (.limitExceeded limit)
    else if field.kind = .custom ∧ field.reference = none then some (.missingReference field.name)
    else none
  | .done _ _ => none

variable {catalog : Catalog}

theorem walk_eq (catalog : Catalog) (depth rest : Nat) (id : TypeId) :
    catalog.walk depth rest id =
      catalog.typeWalk (fun field => catalog.walkInside depth field rest) depth id := by
  cases rest <;> rfl

/-- A moment of the walk through a type is the type, one of its fields, the end of a field, or
a moment inside one. -/
theorem typeWalk_cases {inside : TypeField → List Moment} {depth : Nat} {id : TypeId}
    {before after : List Moment} {moment : Moment}
    (h : catalog.typeWalk inside depth id = before ++ moment :: after) :
    (before = [] ∧ moment = .type depth id) ∨
    ∃ field ∈ catalog.fieldsOf id, ∃ front back, .type depth id ∈ front ∧
      ((moment = .field depth field ∧ before = front ∧
        after = inside field ++ .done depth field :: back) ∨
      (moment = .done depth field ∧ before = front ++ .field depth field :: inside field) ∨
      ∃ inner rest, inside field = inner ++ moment :: rest ∧ before = front ++ inner ∧
        after = rest ++ back) := by
  rcases List.cons_eq_append_iff.mp h with ⟨hb, he⟩ | ⟨later, rfl, fields⟩
  · exact .inl ⟨hb, (List.cons.inj he).1⟩
  · obtain ⟨field, hf, front, inner, rest, back, own, rfl, rfl⟩ :=
      exists_of_flatMap_eq_append_cons fields
    refine .inr ⟨field, hf, ?_⟩
    rcases List.cons_eq_append_iff.mp own with ⟨rfl, he⟩ | ⟨inner, rfl, left⟩
    · obtain ⟨rfl, rfl⟩ := List.cons.inj he
      exact ⟨.type depth id :: front, back, List.mem_cons_self, .inl ⟨rfl, by simp, by simp⟩⟩
    · rcases append_eq_append_cons_cases left with ⟨rest, within, rfl⟩ | ⟨more, rfl, last⟩
      · exact ⟨.type depth id :: (front ++ [.field depth field]), .done depth field :: back,
          List.mem_cons_self, .inr (.inr ⟨inner, rest, within, by simp, by simp⟩)⟩
      · obtain ⟨rfl, he⟩ : more = [] ∧ moment = .done depth field := by
          rcases List.cons_eq_append_iff.mp last with ⟨hm, he⟩ | ⟨_, -, he⟩
          · exact ⟨hm, (List.cons.inj he).1⟩
          · simp at he
        exact ⟨.type depth id :: front, back, List.mem_cons_self, .inr (.inl ⟨he, by simp⟩)⟩

/-- Something holds of the moments of a walk, with what is met before and after them, if it
holds at the type itself and at its fields, and a reference followed from a field keeps it. -/
@[elab_as_elim]
theorem walk_induction
    {motive : (depth rest : Nat) → TypeId → List Moment → Moment → List Moment → Prop}
    (type : ∀ depth rest id after, motive depth rest id [] (.type depth id) after)
    (field : ∀ depth rest id front field back, .type depth id ∈ front →
      field ∈ catalog.fieldsOf id → motive depth rest id front (.field depth field)
        (catalog.walkInside depth field rest ++ .done depth field :: back))
    (done : ∀ depth rest id front field back, field ∈ catalog.fieldsOf id →
      motive depth rest id (front ++ .field depth field :: catalog.walkInside depth field rest)
        (.done depth field) back)
    (below : ∀ depth rest id target front before moment after back, .type depth id ∈ front →
      catalog.Refers id target → motive (depth + 1) rest target before moment after →
      motive depth (rest + 1) id (front ++ before) moment (after ++ back))
    {depth rest : Nat} {id : TypeId} {before after : List Moment} {moment : Moment}
    (h : catalog.walk depth rest id = before ++ moment :: after) :
    motive depth rest id before moment after := by
  induction rest generalizing depth id before after with
  | zero =>
    rw [walk_eq] at h
    rcases typeWalk_cases h with ⟨rfl, rfl⟩ | ⟨own, hf, front, back, met,
      ⟨rfl, rfl, rfl⟩ | ⟨rfl, rfl⟩ | ⟨inner, _, nothing, -⟩⟩
    · exact type depth 0 id after
    · exact field depth 0 id before own back met hf
    · exact done depth 0 id front own after hf
    · exact absurd nothing.symm (by simp [walkInside])
  | succ rest ih =>
    rw [walk_eq] at h
    rcases typeWalk_cases h with ⟨rfl, rfl⟩ | ⟨own, hf, front, back, met,
      ⟨rfl, rfl, rfl⟩ | ⟨rfl, rfl⟩ | ⟨inner, _, within, rfl, rfl⟩⟩
    · exact type depth (rest + 1) id after
    · exact field depth (rest + 1) id before own back met hf
    · exact done depth (rest + 1) id front own after hf
    · obtain ⟨target, ht, first, before, after, last, inner, rfl, rfl⟩ :=
        exists_of_flatMap_eq_append_cons within
      obtain ⟨other, same, hk, hr⟩ := mem_referencesOf_iff.mp ht
      obtain rfl := List.mem_singleton.mp same
      have step := below depth rest id target (front ++ first) before moment after (last ++ back)
        (List.mem_append_left first met) ⟨_, hf, hk, hr⟩ (ih inner)
      simpa only [List.append_assoc] using step

/-- A type is met first of all, or below a type that was met before and refers to it. -/
theorem type_met_of_walk {depth rest reached : Nat} {id target : TypeId}
    {before after : List Moment}
    (h : catalog.walk depth rest id = before ++ .type reached target :: after) :
    target = id ∨ ∃ steps owner, steps < rest ∧ catalog.Path steps id owner ∧
      .type (depth + steps) owner ∈ before ∧ catalog.Refers owner target := by
  generalize same : Moment.type reached target = moment at h
  revert same
  refine walk_induction ?_ ?_ ?_ ?_ h
  · intro depth rest id _ same
    exact .inl (Moment.type.inj same).2
  · intro _ _ _ _ _ _ _ _ same
    cases same
  · intro _ _ _ _ _ _ _ same
    cases same
  · intro depth rest id next front before moment _ _ met refers later same
    rcases later same with rfl | ⟨steps, owner, room, path, own, last⟩
    · exact .inr ⟨0, id, Nat.succ_pos rest, .here id, List.mem_append_left before met, refers⟩
    · refine .inr ⟨steps + 1, owner, Nat.succ_lt_succ room, .step refers path, ?_, last⟩
      rw [← Nat.add_assoc, Nat.add_right_comm]
      exact List.mem_append_right front own

/-- A field is met after its type, and left after what is below it. -/
theorem field_met_of_walk {depth rest reached : Nat} {id : TypeId} {field : TypeField}
    {before after : List Moment}
    (h : catalog.walk depth rest id = before ++ .field reached field :: after) :
    ∃ steps more owner, steps + more = rest ∧ reached = depth + steps ∧
      catalog.Path steps id owner ∧ .type reached owner ∈ before ∧
      field ∈ catalog.fieldsOf owner ∧
      ∃ back, after = catalog.walkInside reached field more ++ .done reached field :: back := by
  generalize same : Moment.field reached field = moment at h
  revert same
  refine walk_induction ?_ ?_ ?_ ?_ h
  · intro _ _ _ _ same
    cases same
  · intro depth rest id _ _ back met own same
    obtain ⟨rfl, rfl⟩ := Moment.field.inj same
    exact ⟨0, rest, id, Nat.zero_add rest, rfl, .here id, met, own, back, rfl⟩
  · intro _ _ _ _ _ _ _ same
    cases same
  · intro depth rest id next front before moment after last _ refers later same
    obtain ⟨steps, more, owner, total, rfl, path, met, own, back, rfl⟩ := later same
    exact ⟨steps + 1, more, owner, by omega, by omega, .step refers path,
      List.mem_append_right front met, own, back ++ last, by simp⟩

/-- A field is left after it was met, with what is below it in between. -/
theorem done_met_of_walk {depth rest reached : Nat} {id : TypeId} {field : TypeField}
    {before after : List Moment}
    (h : catalog.walk depth rest id = before ++ .done reached field :: after) :
    ∃ steps more front, steps + more = rest ∧ reached = depth + steps ∧
      before = front ++ .field reached field :: catalog.walkInside reached field more := by
  generalize same : Moment.done reached field = moment at h
  revert same
  refine walk_induction ?_ ?_ ?_ ?_ h
  · intro _ _ _ _ same
    cases same
  · intro _ _ _ _ _ _ _ _ same
    cases same
  · intro depth rest _ front _ _ _ same
    obtain ⟨rfl, rfl⟩ := Moment.done.inj same
    exact ⟨0, rest, front, Nat.zero_add rest, rfl, rfl⟩
  · intro depth rest id next front before moment _ _ _ _ later same
    obtain ⟨steps, more, inner, total, rfl, rfl⟩ := later same
    exact ⟨steps + 1, more, front ++ inner, by omega, by omega, by simp⟩

end Catalog

end SchemaGate
