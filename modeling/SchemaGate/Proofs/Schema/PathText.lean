import SchemaGate.Proofs.Schema.FirstViolation

/-!
# What a path tells about a place

A path joins the texts of steps by slashes and does not mark the names that hold slashes
themselves. Where no name on the way does, splitting at the slashes gives the texts back. A text
alone does not say whether it was a position or a name, but the kind of the node where the step
starts does (`Node.Leads`). So the path tells where in the value a check failed, with one
exception: a slash alone stands for the root and also for the member of the root whose name is
empty.
-/

namespace SchemaGate

variable {ι : Type}

namespace Step

/-- A position is written in digits. -/
theorem slash_not_mem_text_index (position : Nat) :
    '/' ∉ (text (.index position)).toList := by
  intro held
  have digits : (text (.index position)).toList = Nat.toDigits 10 position := Nat.toList_repr
  rw [digits] at held
  have digit := Nat.isDigit_of_mem_toDigits (by decide) (by decide) held
  exact absurd digit (by decide)

/-- Digits tell the position. -/
theorem text_index_inj {position other : Nat} :
    text (.index position) = text (.index other) ↔ position = other := by
  refine ⟨fun same => ?_, fun same => by rw [same]⟩
  have digits : Nat.toDigits 10 position = Nat.toDigits 10 other := by
    rw [← Nat.toList_repr, ← Nat.toList_repr]
    exact congrArg String.toList same
  calc position
    _ = Nat.ofDigitChars 10 (Nat.toDigits 10 position) 0 := Nat.ofDigitChars_ten_toDigits.symm
    _ = Nat.ofDigitChars 10 (Nat.toDigits 10 other) 0 := by rw [digits]
    _ = other := Nat.ofDigitChars_ten_toDigits

/-- Only the empty name has an empty text. -/
theorem text_eq_empty_iff {step : Step} : step.text = "" ↔ step = .name "" := by
  cases step with
  | index position => exact iff_of_false Nat.repr_ne_empty nofun
  | name key => exact ⟨fun empty => congrArg Step.name empty, Step.name.inj⟩

end Step

/-- Joined texts are empty if there are none or a single empty one. -/
theorem intercalate_eq_empty_iff {texts : List String} :
    "/".intercalate texts = "" ↔ texts = [] ∨ texts = [""] := by
  match texts with
  | [] => simp
  | [text] => simp
  | first :: second :: rest =>
    rw [String.intercalate_cons_cons]
    refine iff_of_false (fun empty => ?_) (by simp)
    rw [String.append_eq_empty_iff, String.append_eq_empty_iff] at empty
    exact absurd empty.1.2 (by decide)

/-- Splitting at slashes gives back texts without slashes that were joined by them. -/
theorem splitOn_intercalate {texts : List String} (nonempty : texts ≠ [])
    (plain : ∀ text ∈ texts, '/' ∉ text.toList) :
    ("/".intercalate texts).toList.splitOn '/' = texts.map String.toList := by
  rw [String.toList_intercalate]
  exact List.splitOn_intercalate '/' (by simpa using plain) (by simpa using nonempty)

/-- Texts without slashes can be told from what joining them gives, as long as an empty text
does not stand alone. -/
theorem eq_of_intercalate_eq {texts others : List String}
    (plain : ∀ text ∈ texts ++ others, '/' ∉ text.toList) (inside : texts ≠ [""])
    (inside' : others ≠ [""]) (same : "/".intercalate texts = "/".intercalate others) :
    texts = others := by
  obtain ⟨first, second⟩ := List.forall_mem_append.mp plain
  by_cases nothing : texts = []
  · subst nothing
    have empty := intercalate_eq_empty_iff.mp (same.symm.trans String.intercalate_nil)
    exact (empty.resolve_right inside').symm
  · by_cases nothing' : others = []
    · subst nothing'
      have empty := intercalate_eq_empty_iff.mp (same.trans String.intercalate_nil)
      exact empty.resolve_right inside
    · have split := splitOn_intercalate nothing first
      rw [same, splitOn_intercalate nothing' second] at split
      exact (List.map_inj_right fun _ _ => String.toList_inj.mp).mp split.symm

namespace Node

/-- Steps that a schema provides for: positions below array nodes, names below object nodes. The
last step may lead to a name that is not declared. -/
inductive Leads : Node ι → List Step → Prop where
  /-- No step. -/
  | here {node : Node ι} : Leads node []
  /-- To a member, declared or not. -/
  | member {node : Node ι} (key : String) : node.kind = .object → Leads node [.name key]
  /-- To an element and on through the items. -/
  | element {node child : Node ι} {rest : List Step} (position : Nat) :
      node.kind = .array → node.items = some child → Leads child rest →
      Leads node (.index position :: rest)
  /-- To a declared member and on through its node. -/
  | property {node child : Node ι} {key : String} {rest : List Step} :
      node.kind = .object → KeyedList.find? key node.properties = some child →
      Leads child rest → Leads node (.name key :: rest)

/-- The first of several steps leads to an element or to a declared member. -/
theorem walk?_cons_cases {node : Node ι} {value : Json} {step : Step} {rest : List Step}
    {found : Node ι × Json} (walk : node.walk? (step :: rest) value = some found) :
    ∃ child part, child.walk? rest part = some found ∧
      ((∃ position, step = .index position ∧ node.kind = .array ∧ node.items = some child) ∨
        ∃ key, step = .name key ∧ node.kind = .object ∧
          KeyedList.find? key node.properties = some child) := by
  unfold walk? at walk
  split at walk
  · next same => cases same
  · next position others elements same =>
    obtain ⟨rfl, rfl⟩ := List.cons.inj same
    split at walk
    · next array =>
      obtain ⟨child, held, walk⟩ := Option.bind_eq_some_iff.mp walk
      obtain ⟨part, -, walk⟩ := Option.bind_eq_some_iff.mp walk
      exact ⟨child, part, walk, .inl ⟨position, rfl, array, held⟩⟩
    · cases walk
  · next key others members same =>
    obtain ⟨rfl, rfl⟩ := List.cons.inj same
    split at walk
    · next object =>
      obtain ⟨child, held, walk⟩ := Option.bind_eq_some_iff.mp walk
      obtain ⟨part, -, walk⟩ := Option.bind_eq_some_iff.mp walk
      exact ⟨child, part, walk, .inr ⟨key, rfl, object, held⟩⟩
    · cases walk
  · cases walk

/-- A schema provides for the steps that were followed through it, and for those that it provides
for from there. -/
theorem leads_append_of_walk? {node other : Node ι} {value part : Json} {front rest : List Step}
    (walk : node.walk? front value = some (other, part)) (onward : other.Leads rest) :
    node.Leads (front ++ rest) := by
  induction front generalizing node value with
  | nil =>
    obtain ⟨rfl, -⟩ := Prod.mk.inj (Option.some.inj walk)
    exact onward
  | cons step front ih =>
    obtain ⟨child, inner, further, way⟩ := walk?_cons_cases walk
    rcases way with ⟨position, rfl, array, held⟩ | ⟨key, rfl, object, declared⟩
    · exact .element position array held (ih further)
    · exact .property object declared (ih further)

/-- Of steps that one schema provides for the texts tell everything. -/
theorem Leads.eq_of_texts_eq {node : Node ι} {steps others : List Step} (h : node.Leads steps)
    (h' : node.Leads others) (same : steps.map Step.text = others.map Step.text) :
    steps = others := by
  induction h generalizing others with
  | here => exact (List.map_eq_nil_iff.mp same.symm).symm
  | @member node key object =>
    cases h' with
    | here => cases same
    | member other _ => exact congrArg (fun name => [Step.name name]) (List.cons.inj same).1
    | element position array _ _ =>
      rw [object] at array
      cases array
    | @property _ _ other rest _ _ _ =>
      obtain ⟨name, last⟩ := List.cons.inj same
      rw [List.map_eq_nil_iff.mp last.symm, show key = other from name]
  | @element node child rest position array held _ ih =>
    cases h' with
    | here => cases same
    | member _ object =>
      rw [array] at object
      cases object
    | @element _ twin others other _ held' onward =>
      obtain ⟨digits, texts⟩ := List.cons.inj same
      obtain rfl : child = twin := Option.some.inj (held.symm.trans held')
      rw [ih onward texts, Step.text_index_inj.mp digits]
    | property object _ _ =>
      rw [array] at object
      cases object
  | @property node child key rest object declared _ ih =>
    cases h' with
    | here => cases same
    | member other _ =>
      obtain ⟨name, last⟩ := List.cons.inj same
      rw [List.map_eq_nil_iff.mp last, show key = other from name]
    | element _ array _ _ =>
      rw [object] at array
      cases array
    | @property _ twin other others _ declared' onward =>
      obtain ⟨name, texts⟩ := List.cons.inj same
      obtain rfl : key = other := name
      obtain rfl : child = twin := Option.some.inj (declared.symm.trans declared')
      rw [ih onward texts]

/-- A node that rejects a value does so before anything else is looked at. -/
theorem breach?_of_rejects {node : Node ι} {value : Json} {words : String}
    (h : node.Rejects value words) : ∃ reason, node.breach? value = some (.here reason) := by
  cases h with
  | kind held other => exact ⟨_, breach?_of_kind_ne other fun null => absurd null held⟩
  | nullScalar scalar => exact ⟨_, if_pos scalar⟩
  | nullObject object requires =>
    exact ⟨_, (breach?_null_of_object object).trans (if_pos requires)⟩

/-- A value that the root rejects has its first violation there. -/
theorem steps_eq_nil_of_rejects {node : Node ι} {value : Json} {words : String}
    (h : node.Rejects value words) {violation : Violation}
    (first : (node.places value).findSome? Place.violation? = some violation) :
    violation.steps = [] := by
  obtain ⟨reason, breach⟩ := breach?_of_rejects h
  have root : Place.violation? ⟨[], node, value⟩ = some (.here reason) :=
    (Place.violation?_root node value).trans breach
  have front : ∃ inside, node.places value = ⟨[], node, value⟩ :: inside := by
    cases node
    exact ⟨_, rfl⟩
  obtain ⟨inside, places⟩ := front
  rw [places, List.findSome?_cons, root] at first
  exact congrArg Violation.steps (Option.some.inj first).symm

end Node

namespace Violation

variable {violation twin : Violation}

/-- The path is a slash alone at the root and at a member of the root whose name is empty. -/
theorem path_eq_slash_iff :
    violation.path = "/" ↔ violation.steps = [] ∨ violation.steps = [.name ""] := by
  have joined : violation.path = "/" ↔ "/".intercalate (violation.steps.map Step.text) = "" :=
    @String.append_right_inj "/" _ ""
  rw [joined, intercalate_eq_empty_iff, List.map_eq_nil_iff, List.map_eq_singleton_iff]
  simp only [Step.text_eq_empty_iff, exists_eq_right]

/-- Without slashes in names the path tells the texts of the steps, unless it may stand for the
root and for another place. -/
theorem texts_eq_of_path_eq
    (plain : ∀ name, .name name ∈ violation.steps ++ twin.steps → '/' ∉ name.toList)
    (inside : violation.steps ≠ [.name ""]) (inside' : twin.steps ≠ [.name ""])
    (same : violation.path = twin.path) :
    violation.steps.map Step.text = twin.steps.map Step.text := by
  have nonempty : ∀ {steps : List Step}, steps ≠ [.name ""] → steps.map Step.text ≠ [""] := by
    intro steps other single
    rw [List.map_eq_singleton_iff] at single
    obtain ⟨step, rfl, empty⟩ := single
    exact other (congrArg ([·]) (Step.text_eq_empty_iff.mp empty))
  refine eq_of_intercalate_eq ?_ (nonempty inside) (nonempty inside')
    ((String.append_right_inj "/").mp same)
  rw [← List.map_append, List.forall_mem_map]
  intro step held
  cases step with
  | index position => exact Step.slash_not_mem_text_index position
  | name key => exact plain key held

end Violation

variable [DecidableEq ι] {schema : Node ι}

/-- A schema provides for the steps of what a check reports. -/
theorem Checker.leads_of_violation_run (hc : schema.Coherent) (hw : schema.WellFormed)
    {checker : Checker ι} {value : Json} {violation : Violation}
    (failed : (checker.run schema value).violation = some violation) :
    schema.Leads violation.steps := by
  rw [Checker.violation_run_eq_findSome? hc] at failed
  obtain ⟨place, hm, hv⟩ := List.exists_of_findSome?_eq_some failed
  rcases Node.located_of_mem_places hw hm hv with
    ⟨node, part, walk, -⟩ | ⟨front, name, node, members, steps, walk, object, -⟩
  · have leads := Node.leads_append_of_walk? walk .here
    rwa [List.append_nil] at leads
  · rw [steps]
    exact Node.leads_append_of_walk? walk (.member name object)

/-- A check reports the root exactly if the root rejects the value. -/
theorem Checker.steps_eq_nil_iff_rejects (hc : schema.Coherent) (hw : schema.WellFormed)
    {checker : Checker ι} {value : Json} {violation : Violation}
    (failed : (checker.run schema value).violation = some violation) :
    violation.steps = [] ↔ schema.Rejects value violation.reason.message := by
  rw [Checker.violation_run_eq_findSome? hc] at failed
  refine ⟨fun root => ?_, fun rejects => Node.steps_eq_nil_of_rejects rejects failed⟩
  obtain ⟨place, hm, hv⟩ := List.exists_of_findSome?_eq_some failed
  rcases Node.located_of_mem_places hw hm hv with
    ⟨node, part, walk, rejects⟩ | ⟨front, name, node, members, steps, -⟩
  · rw [root] at walk
    obtain ⟨rfl, rfl⟩ := Prod.mk.inj (Option.some.inj walk)
    exact rejects
  · rw [root] at steps
    exact absurd steps (List.append_ne_nil_of_right_ne_nil front (List.cons_ne_nil _ _)).symm

/-- Two checks against one schema that report the same path failed at the same place, where no
name on the way to either holds a slash and neither place is the member of the root whose name is
empty. The path is a slash alone, that member aside, exactly if the root rejects the value. -/
theorem paths_tell_places (hc : schema.Coherent) (hw : schema.WellFormed)
    (checker other : Checker ι) (value another : Json) :
    (∀ violation twin, (checker.run schema value).violation = some violation →
      (other.run schema another).violation = some twin →
      (∀ name, .name name ∈ violation.steps ++ twin.steps → '/' ∉ name.toList) →
      violation.steps ≠ [.name ""] → twin.steps ≠ [.name ""] →
      violation.path = twin.path → violation.steps = twin.steps) ∧
    (∀ violation, (checker.run schema value).violation = some violation →
      violation.steps ≠ [.name ""] →
      (violation.path = "/" ↔ schema.Rejects value violation.reason.message)) := by
  constructor
  · intro violation twin failed failed' plain inside inside' same
    have leads := Checker.leads_of_violation_run hc hw failed
    refine leads.eq_of_texts_eq (Checker.leads_of_violation_run hc hw failed') ?_
    exact Violation.texts_eq_of_path_eq plain inside inside' same
  · intro violation failed inside
    rw [Violation.path_eq_slash_iff, or_iff_left inside]
    exact Checker.steps_eq_nil_iff_rejects hc hw failed

/-- A directory whose second user lacks an age. -/
def ageless : Json := .object [("users", .array [.object [("age", .number (.int 1))], .object []])]

/-- The second user's age is a text. -/
def wrongAge : Violation := ⟨[.name "users", .index 1, .name "age"], .wrongKind .number .string⟩

/-- The second user's age is missing. -/
def missingAge : Violation := ⟨[.name "users", .index 1, .name "age"], .missingRequired⟩

/-- A text is no directory. -/
def noDirectory : Violation := ⟨[], .wrongKind .object .string⟩

/-- An age of the wrong kind and a missing one are reported at the same place for different
reasons, and what is no directory at the root. -/
theorem paths_tell_places_directory :
    directory.numbered.Coherent ∧ directory.numbered.WellFormed ∧
    (Checker.run {} directory.numbered misfits).violation = some wrongAge ∧
    (Checker.run {} directory.numbered ageless).violation = some missingAge ∧
    (Checker.run {} directory.numbered (.string "none")).violation = some noDirectory ∧
    (∀ name, .name name ∈ wrongAge.steps ++ missingAge.steps → '/' ∉ name.toList) ∧
    wrongAge.steps ≠ [.name ""] ∧ missingAge.steps ≠ [.name ""] ∧
    noDirectory.steps ≠ [.name ""] ∧
    wrongAge.path = "/users/1/age" ∧ wrongAge.path = missingAge.path ∧
    wrongAge.steps = missingAge.steps ∧ noDirectory.path = "/" ∧
    directory.numbered.Rejects (.string "none") noDirectory.reason.message := by
  have coherent := Node.coherent_numbered directory
  have wrong : (Checker.run {} directory.numbered misfits).violation = some wrongAge := by decide
  have missing : (Checker.run {} directory.numbered ageless).violation = some missingAge := by
    decide
  have none : (Checker.run {} directory.numbered (.string "none")).violation =
      some noDirectory := by decide
  have plain : ∀ name, .name name ∈ wrongAge.steps ++ missingAge.steps → '/' ∉ name.toList := by
    simp [wrongAge, missingAge]
  have same : wrongAge.path = missingAge.path := rfl
  have alike := (paths_tell_places coherent wellFormed_directory {} {} misfits ageless).1
    wrongAge missingAge wrong missing plain (by decide) (by decide) same
  have top := (paths_tell_places coherent wellFormed_directory {} {} (.string "none") .null).2
    noDirectory none (by decide)
  exact ⟨coherent, wellFormed_directory, wrong, missing, none, plain, by decide, by decide,
    by decide, by decide, same, alike, by decide, top.mp (by decide)⟩

/-- The body of a message has a text. -/
def messageBody : Schema :=
  { label := (), kind := .object, properties := [("text", .bare .string)],
    required := .ofList ["text"] }

/-- A message has a body with a text, and may have a text under a name with a slash. -/
def message : Schema where
  label := ()
  kind := .object
  properties := [("body", messageBody), ("body/text", .bare .string)]

/-- Something must stand under the empty name. -/
def nameless : Schema := { label := (), kind := .object, required := .ofList [""] }

/-- A text that is missing in the body and one under a name with a slash that is no text are
reported under one path. What is missing under the empty name is reported like a value that the
root rejects, though the root does not reject it. -/
theorem one_path_for_two_places :
    (Checker.run {} message.numbered (.object [("body", .object [])])).violation =
      some ⟨[.name "body", .name "text"], .missingRequired⟩ ∧
    (Checker.run {} message.numbered (.object [("body/text", .number (.int 1))])).violation =
      some ⟨[.name "body/text"], .wrongKind .string .number⟩ ∧
    Violation.path ⟨[.name "body", .name "text"], .missingRequired⟩ =
      Violation.path ⟨[.name "body/text"], .wrongKind .string .number⟩ ∧
    (Checker.run {} nameless.numbered (.object [])).violation =
      some ⟨[.name ""], .missingRequired⟩ ∧
    Violation.path ⟨[.name ""], .missingRequired⟩ = "/" ∧
    ∀ words, ¬ nameless.numbered.Rejects (.object []) words := by
  refine ⟨by decide, by decide, by decide, by decide, by decide, fun words rejects => ?_⟩
  cases rejects with
  | kind _ other => exact other rfl

end SchemaGate
