import Mathlib.Data.List.Induction
import SchemaGate.Tool.History

/-!
# What a registry lists

A registry lists what its history says: the names whose registration counts and that nothing
hides, in the order of these registrations, each with the tool that was registered then. What
it refuses follows the history as well.

A change acts on the registration under its own name and on nothing else (`after_eq`), and the
history records it name by name in the same way (`Leaves.append_singleton`), so the two stay
together through a run (`leaves_registration?`, `pairwise_precedes_keys`).
-/

namespace SchemaGate

/-- What a change makes of the registration under its name. -/
def RegistryChange.turn : RegistryChange → Option Registration → Option Registration
  | register tool, slot => slot.or (some { tool })
  | unregister _, _ => none
  | enable _, slot => slot.map fun held => { held with enabled := true }
  | disable _, slot => slot.map fun held => { held with enabled := false }

namespace Registry

variable {registry : Registry} {name : String}

/-- A change replaces, adds or drops the registration under its name. -/
theorem after_eq (registry : Registry) (change : RegistryChange) :
    registry.after change = match change.turn (registry.registration? change.name) with
      | some held => registry.put change.name held
      | none => registry.drop change.name := by
  cases hr : registry.registration? change.name with
  | none =>
    have absent := drop_of_registration? hr
    cases change <;> simp only [RegistryChange.name] at hr absent <;>
      simp [after, change, register, unregister, setEnabled, RegistryChange.turn,
        RegistryChange.name, hr, absent]
  | some held =>
    have present := put_of_registration? hr
    cases change <;> simp only [RegistryChange.name] at hr present <;>
      simp [after, change, register, unregister, setEnabled, RegistryChange.turn,
        RegistryChange.name, hr, present]

theorem after_of_turn_eq_some {change : RegistryChange} {held : Registration}
    (h : change.turn (registry.registration? change.name) = some held) :
    registry.after change = registry.put change.name held := by
  rw [after_eq, h]

theorem after_of_turn_eq_none {change : RegistryChange}
    (h : change.turn (registry.registration? change.name) = none) :
    registry.after change = registry.drop change.name := by
  rw [after_eq, h]

/-- A change turns the registration under its name and leaves the others as they are. -/
theorem registration?_after (registry : Registry) (change : RegistryChange) (name : String) :
    (registry.after change).registration? name =
      if change.name = name then change.turn (registry.registration? name)
      else registry.registration? name := by
  cases ht : change.turn (registry.registration? change.name) with
  | none =>
    rw [after_of_turn_eq_none ht, registration?_drop]
    split
    · next same => rw [← same, ht]
    · rfl
  | some held =>
    rw [after_of_turn_eq_some ht, registration?_put]
    split
    · next same => rw [← same, ht]
    · rfl

/-- A name is refused for registration exactly if it is present. -/
theorem register_eq_error_iff {tool : Tool} {refusal : RegistryRefusal} :
    registry.change (.register tool) = .error refusal ↔
      registry.registration? tool.name ≠ none ∧ refusal = .alreadyRegistered tool.name := by
  cases hr : registry.registration? tool.name <;> simp [change, register, hr, eq_comm]

/-- Changes other than a registration are refused exactly if their name is absent. -/
theorem change_eq_error_iff {change : RegistryChange} {refusal : RegistryRefusal}
    (other : ∀ tool, change ≠ .register tool) :
    registry.change change = .error refusal ↔
      registry.registration? change.name = none ∧ refusal = .notFound change.name := by
  cases change with
  | register tool => exact absurd rfl (other tool)
  | unregister name =>
    cases hr : registry.registration? name <;>
      simp [Registry.change, unregister, RegistryChange.name, hr, eq_comm]
  | enable name | disable name =>
    cases hr : registry.registration? name <;>
      simp [Registry.change, setEnabled, RegistryChange.name, hr, eq_comm]

/-- A refused change leaves the registry as it was. -/
theorem after_of_change_eq_error {change : RegistryChange} {refusal : RegistryRefusal}
    (h : registry.change change = .error refusal) : registry.after change = registry := by
  rw [after, h]

/-- The tool under a name is the one that is registered and not hidden. -/
theorem get_eq_ok_iff {tool : Tool} :
    registry.get name = .ok tool ↔ registry.registration? name = some ⟨tool, true⟩ := by
  unfold get
  split
  · next h => rw [h]; simp
  · next h => simpa using h tool

theorem get_eq_error_iff {refusal : RegistryRefusal} :
    registry.get name = .error refusal ↔
      (∀ tool, registry.registration? name ≠ some ⟨tool, true⟩) ∧ refusal = .notFound name := by
  unfold get
  split
  · next h => simp [h]
  · next h => simpa [eq_comm] using fun _ => h

theorem contains_iff :
    registry.contains name = true ↔ ∃ tool, registry.registration? name = some ⟨tool, true⟩ := by
  rw [contains, Option.any_eq_true]
  constructor
  · rintro ⟨⟨tool, shown⟩, hr, rfl : shown = true⟩
    exact ⟨tool, hr⟩
  · rintro ⟨tool, hr⟩
    exact ⟨_, hr, rfl⟩

/-- What is listed is what can be looked up. -/
theorem mem_list_iff :
    name ∈ registry.list ↔ ∃ tool, registry.registration? name = some ⟨tool, true⟩ := by
  simp only [list, List.mem_map, List.mem_filter]
  constructor
  · rintro ⟨⟨_, tool, shown⟩, ⟨hm, rfl : shown = true⟩, rfl⟩
    exact ⟨tool, (KeyedList.find?_eq_some_iff registry.distinct).mpr hm⟩
  · rintro ⟨tool, hf⟩
    exact ⟨_, ⟨(KeyedList.find?_eq_some_iff registry.distinct).mp hf, rfl⟩, rfl⟩

theorem list_sublist_keys (registry : Registry) :
    registry.list.Sublist registry.registrations.keys :=
  List.filter_sublist.map Prod.fst

/-- The changed registration of a present name keeps its place, a new name goes to the end. -/
theorem keys_after_of_turn_eq_some {change : RegistryChange} {held : Registration}
    (h : change.turn (registry.registration? change.name) = some held) :
    (registry.after change).registrations.keys =
      if change.name ∈ registry.registrations.keys then registry.registrations.keys
      else registry.registrations.keys ++ [change.name] := by
  rw [after_of_turn_eq_some h]
  exact KeyedList.keys_insert _ _ _

section Apart

variable {changes : List RegistryChange}

/-- What commutes with looking up, holding and dropping under the name of a change commutes with
the change. -/
theorem after_comm (f : Registry → Registry) {change : RegistryChange}
    (look : (f registry).registration? change.name = registry.registration? change.name)
    (hold : ∀ held, (f registry).put change.name held = f (registry.put change.name held))
    (leave : (f registry).drop change.name = f (registry.drop change.name)) :
    (f registry).after change = f (registry.after change) := by
  cases ht : change.turn (registry.registration? change.name) with
  | none => rw [after_of_turn_eq_none ht, after_of_turn_eq_none (look ▸ ht), leave]
  | some held => rw [after_of_turn_eq_some ht, after_of_turn_eq_some (look ▸ ht), hold]

theorem registration?_afterAll_of_apart (apart : ∀ change ∈ changes, change.name ≠ name) :
    (registry.afterAll changes).registration? name = registry.registration? name := by
  induction changes generalizing registry with
  | nil => rfl
  | cons change rest ih =>
    have later := @ih (registry.after change) fun c hc => apart c (List.mem_cons_of_mem _ hc)
    rw [afterAll_cons, later, registration?_after, if_neg (apart change List.mem_cons_self)]

/-- Replacing the registration of a present name and changes to other names can be made in
either order. -/
theorem afterAll_put_of_apart (present : registry.registration? name ≠ none) (held : Registration)
    (apart : ∀ change ∈ changes, change.name ≠ name) :
    (registry.put name held).afterAll changes = (registry.afterAll changes).put name held := by
  induction changes generalizing registry with
  | nil => rfl
  | cons change rest ih =>
    have hne := apart change List.mem_cons_self
    have key : name ∈ registry.registrations.keys :=
      KeyedList.mem_keys_iff.mpr (Option.ne_none_iff_exists'.mp present)
    have first : (registry.put name held).after change = (registry.after change).put name held :=
      after_comm (Registry.put · name held)
        ((registration?_put registry name change.name held).trans (if_neg hne.symm))
        (fun value => put_comm hne key value held) (drop_put_comm hne held)
    have still : (registry.after change).registration? name ≠ none := by
      rwa [registration?_after, if_neg hne]
    rw [afterAll_cons, first, ih still fun c hc => apart c (List.mem_cons_of_mem _ hc),
      afterAll_cons]

/-- Dropping a name and changes to other names can be made in either order. -/
theorem afterAll_drop_of_apart (apart : ∀ change ∈ changes, change.name ≠ name) :
    (registry.drop name).afterAll changes = (registry.afterAll changes).drop name := by
  induction changes generalizing registry with
  | nil => rfl
  | cons change rest ih =>
    have hne := apart change List.mem_cons_self
    have first : (registry.drop name).after change = (registry.after change).drop name :=
      after_comm (Registry.drop · name)
        ((registration?_drop registry name change.name).trans (if_neg hne.symm))
        (fun value => (drop_put_comm hne.symm value).symm) (drop_comm registry change.name name)
    rw [afterAll_cons, first, ih fun c hc => apart c (List.mem_cons_of_mem _ hc), afterAll_cons]

/-- Hiding a tool that can be seen and showing it again changes nothing, whatever happens to
other names in between. -/
theorem afterAll_disable_enable {tool : Tool}
    (visible : registry.registration? name = some ⟨tool, true⟩)
    (apart : ∀ change ∈ changes, change.name ≠ name) :
    registry.afterAll (.disable name :: (changes ++ [.enable name])) =
      registry.afterAll changes := by
  have hidden : registry.after (.disable name) = registry.put name ⟨tool, false⟩ :=
    after_of_turn_eq_some (by simp [RegistryChange.turn, RegistryChange.name, visible])
  have present : registry.registration? name ≠ none := by simp [visible]
  have still := (registration?_afterAll_of_apart apart).trans visible
  rw [afterAll_cons, afterAll_append, hidden, afterAll_put_of_apart present _ apart]
  generalize registry.afterAll changes = final at still
  have found : (final.put name ⟨tool, false⟩).registration? name = some ⟨tool, false⟩ := by
    rw [registration?_put, if_pos rfl]
  have shown : (final.put name ⟨tool, false⟩).after (.enable name) =
      (final.put name ⟨tool, false⟩).put name ⟨tool, true⟩ :=
    after_of_turn_eq_some (by simp [RegistryChange.turn, RegistryChange.name, found])
  rw [afterAll_cons, shown, put_put_self, put_of_registration? still]
  rfl

/-- A name that was absent is listed at the end once it is registered. -/
theorem list_after_register {tool : Tool} (free : registry.registration? tool.name = none) :
    (registry.after (.register tool)).list = registry.list ++ [tool.name] := by
  have new : registry.after (.register tool) = registry.put tool.name { tool } :=
    after_of_turn_eq_some (by simp [RegistryChange.turn, RegistryChange.name, free])
  have last : (registry.put tool.name { tool }).registrations =
      registry.registrations ++ [(tool.name, ⟨tool, true⟩)] :=
    KeyedList.insert_of_find?_eq_none free _
  rw [new, list, last]
  simp [list]

/-- A name that is removed and registered again moves to the end, whatever happens to other
names in between. -/
theorem list_afterAll_unregister_register {tool : Tool}
    (apart : ∀ change ∈ changes, change.name ≠ tool.name) :
    (registry.afterAll (.unregister tool.name :: (changes ++ [.register tool]))).list =
      (registry.afterAll changes).list.erase tool.name ++ [tool.name] := by
  have removed : registry.after (.unregister tool.name) = registry.drop tool.name :=
    after_of_turn_eq_none rfl
  have free : ((registry.afterAll changes).drop tool.name).registration? tool.name = none := by
    rw [registration?_drop, if_pos rfl]
  rw [afterAll_cons, afterAll_append, removed, afterAll_drop_of_apart apart, afterAll_cons]
  exact (list_after_register free).trans (by rw [list_drop])

end Apart

end Registry

namespace RegistryHistory

variable {history : RegistryHistory} {change : RegistryChange} {name : String}

theorem registry_append (history : RegistryHistory) (changes : List RegistryChange) :
    registry (history ++ changes) = history.registry.afterAll changes :=
  List.foldl_append

theorem registry_append_singleton (history : RegistryHistory) (change : RegistryChange) :
    registry (history ++ [change]) = history.registry.after change :=
  registry_append history [change]

/-- What a history leaves under a name: nothing if the name is not taken, else the tool of the
registration that counts, hidden or not as the later changes say. -/
def Leaves (history : RegistryHistory) (name : String) : Option Registration → Prop
  | none => ¬ Taken history name
  | some held => ∃ before later, Registered history name before held.tool later ∧
      (held.enabled = true ↔ Shown later name)

/-- A change that is not about a name leaves it as it was. -/
theorem Leaves.of_apart {slot : Option Registration} (h : history.Leaves name slot)
    (apart : change.name ≠ name) : Leaves (history ++ [change]) name slot := by
  have kept : change ≠ .unregister name := fun he => apart (he ▸ rfl)
  have silent : change ≠ .enable name ∧ change ≠ .disable name :=
    ⟨fun he => apart (he ▸ rfl), fun he => apart (he ▸ rfl)⟩
  cases slot with
  | none =>
    intro taken
    rcases taken_append_singleton_iff.mp taken with ⟨tool, rfl, hn⟩ | ⟨-, taken⟩
    · exact apart hn
    · exact h taken
  | some held =>
    obtain ⟨before, later, counts, shown⟩ := h
    refine ⟨before, later ++ [change], counts.append_singleton kept, shown.trans ?_⟩
    simp [shown_append_singleton_iff, silent]

/-- A change turns what the history left under its name. -/
theorem Leaves.of_name {slot : Option Registration} (h : history.Leaves change.name slot) :
    Leaves (history ++ [change]) change.name (change.turn slot) := by
  cases change with
  | register tool =>
    cases slot with
    | none =>
      exact ⟨history, [], registered_append_singleton_iff.mpr (.inl ⟨rfl, rfl, rfl, rfl, h⟩),
        iff_of_true rfl (shown_nil _)⟩
    | some held =>
      obtain ⟨before, later, counts, shown⟩ := h
      refine ⟨before, _, counts.append_singleton nofun, shown.trans ?_⟩
      simp [shown_append_singleton_iff]
  | unregister name =>
    intro taken
    rcases taken_append_singleton_iff.mp taken with ⟨tool, he, -⟩ | ⟨hne, -⟩
    · cases he
    · exact hne rfl
  | enable name | disable name =>
    cases slot with
    | none =>
      intro taken
      rcases taken_append_singleton_iff.mp taken with ⟨tool, he, -⟩ | ⟨-, taken⟩
      · cases he
      · exact h taken
    | some held =>
      obtain ⟨before, later, counts, shown⟩ := h
      refine ⟨before, _, counts.append_singleton nofun, ?_⟩
      simp [shown_append_singleton_iff, RegistryChange.name]

/-- A registry holds under every name what its history leaves there. -/
theorem leaves_registration? (history : RegistryHistory) (name : String) :
    history.Leaves name (history.registry.registration? name) := by
  induction history using List.reverseRecOn with
  | nil =>
    rintro ⟨before, tool, later, hs, -⟩
    exact absurd hs (by simp)
  | append_singleton history change ih =>
    have turned := Registry.registration?_after (registry history) change name
    rw [registry_append_singleton]
    refine turned ▸ ?_
    split
    · next he =>
      subst he
      exact ih.of_name
    · next hne => exact ih.of_apart hne

/-- A name is present exactly if it is taken. -/
theorem taken_iff : history.Taken name ↔ history.registry.registration? name ≠ none := by
  have left := leaves_registration? history name
  cases hr : history.registry.registration? name with
  | none =>
    rw [hr] at left
    exact iff_of_false left fun h => h rfl
  | some held =>
    rw [hr] at left
    obtain ⟨before, later, counts, -⟩ := left
    exact iff_of_true counts.taken (by simp)

theorem lists_iff {tool : Tool} : history.Lists name tool ↔
    history.registry.registration? name = some ⟨tool, true⟩ := by
  have left := leaves_registration? history name
  constructor
  · rintro ⟨before, later, counts, shown⟩
    cases hr : history.registry.registration? name with
    | none =>
      rw [hr] at left
      exact absurd counts.taken left
    | some held =>
      rw [hr] at left
      obtain ⟨_, _, counts', shown'⟩ := left
      obtain ⟨rfl, rfl⟩ := counts.unique counts'
      have visible : held.enabled = true := shown'.mpr shown
      rw [← visible]
  · intro hr
    rw [hr] at left
    obtain ⟨before, later, counts, shown⟩ := left
    exact ⟨before, later, counts, shown.mp rfl⟩

/-- A present name precedes one that is registered now. -/
theorem precedes_register {tool : Tool} (free : ¬ Taken history tool.name)
    (present : Taken history name) :
    Precedes (history ++ [.register tool]) name tool.name := by
  have left := leaves_registration? history name
  obtain ⟨held, hr⟩ := Option.ne_none_iff_exists'.mp (taken_iff.mp present)
  rw [hr] at left
  obtain ⟨before, later, counts, -⟩ := left
  have keeps : RegistryChange.register tool ≠ .unregister name := nofun
  have new := registered_append_singleton_iff.mpr (.inl ⟨rfl, rfl, rfl, rfl, free⟩)
  exact ⟨before, held.tool, _, history, tool, [], counts.append_singleton keeps, new,
    counts.length_lt⟩

theorem mem_keys_iff_taken : name ∈ history.registry.registrations.keys ↔ history.Taken name := by
  rw [taken_iff, KeyedList.mem_keys_iff, Option.ne_none_iff_exists']
  rfl

/-- The names stand in the order of the registrations that count. -/
theorem pairwise_precedes_keys (history : RegistryHistory) :
    history.registry.registrations.keys.Pairwise history.Precedes := by
  induction history using List.reverseRecOn with
  | nil => exact List.Pairwise.nil
  | append_singleton history change ih =>
    rw [registry_append_singleton]
    cases ht : change.turn ((registry history).registration? change.name) with
    | none =>
      -- the changed name is gone, so the change removes none of the names that are left
      rw [Registry.after_of_turn_eq_none ht, Registry.drop, KeyedList.keys_erase]
      have apart : ∀ name ∈ (registry history).registrations.keys.erase change.name,
          change ≠ .unregister name := by
        intro name hm he
        exact ((registry history).distinct.mem_erase_iff.mp hm).1 (he ▸ rfl)
      refine (ih.sublist List.erase_sublist).imp_of_mem fun hf hs precedes => ?_
      exact precedes.append_singleton (apart _ hf) (apart _ hs)
    | some held =>
      have keeps : ∀ name, change ≠ .unregister name := by
        rintro name rfl
        cases ht
      have old := ih.imp fun precedes => Precedes.append_singleton precedes (keeps _) (keeps _)
      rw [Registry.keys_after_of_turn_eq_some ht]
      split
      · exact old
      · next absent =>
        have none_left : (registry history).registration? change.name = none :=
          KeyedList.find?_eq_none_iff.mpr absent
        obtain ⟨tool, rfl⟩ : ∃ tool, change = .register tool := by
          rw [none_left] at ht
          cases change with
          | register tool => exact ⟨tool, rfl⟩
          | unregister | enable | disable => cases ht
        refine List.pairwise_append.mpr ⟨old, List.pairwise_singleton _ _, ?_⟩
        intro first hf second hs
        obtain rfl := List.mem_singleton.mp hs
        have free := mt mem_keys_iff_taken.mpr absent
        exact precedes_register free (mem_keys_iff_taken.mp hf)

theorem mem_list_iff_lists :
    name ∈ history.registry.list ↔ ∃ tool, history.Lists name tool := by
  simp only [lists_iff]
  exact Registry.mem_list_iff

end RegistryHistory

open RegistryHistory in
/-- What a registry shows, and what it refuses, is what its history says. It lists the names
that are registered and not hidden, once each, in the order of the registrations that count; a
look-up finds the tool of that registration and nothing else. A registration is refused exactly
for a name that is taken, any other change exactly for one that is not, and a refused change
leaves the registry as it was. A name that is removed and registered again moves to the end,
and one that is hidden and shown again keeps its place. -/
theorem registry_lists_history (history : RegistryHistory) :
    (history.registry.list.Nodup ∧
      (∀ name, name ∈ history.registry.list ↔ ∃ tool, history.Lists name tool) ∧
      history.registry.list.Pairwise history.Precedes) ∧
    (∀ name, (∀ tool, history.registry.get name = .ok tool ↔ history.Lists name tool) ∧
      (name ∉ history.registry.list ↔ history.registry.get name = .error (.notFound name)) ∧
      (history.registry.contains name = true ↔ name ∈ history.registry.list)) ∧
    (history.registry.count = history.registry.list.length ∧
      (history.registry.isEmpty = true ↔ history.registry.list = [])) ∧
    ((∀ tool refusal, history.registry.change (.register tool) = .error refusal ↔
        history.Taken tool.name ∧ refusal = .alreadyRegistered tool.name) ∧
      (∀ change refusal, (∀ tool, change ≠ .register tool) →
        (history.registry.change change = .error refusal ↔
          ¬ history.Taken change.name ∧ refusal = .notFound change.name)) ∧
      (∀ change refusal, history.registry.change change = .error refusal →
        registry (history ++ [change]) = history.registry)) ∧
    (∀ tool between, (∀ change ∈ between, change.name ≠ tool.name) →
      (registry (history ++ .unregister tool.name :: (between ++ [.register tool]))).list =
        (registry (history ++ between)).list.erase tool.name ++ [tool.name]) ∧
    (∀ name between, name ∈ history.registry.list →
      (∀ change ∈ between, change.name ≠ name) →
      registry (history ++ .disable name :: (between ++ [.enable name])) =
        registry (history ++ between)) := by
  have sub := Registry.list_sublist_keys history.registry
  refine ⟨⟨sub.nodup history.registry.distinct, fun _ => mem_list_iff_lists,
    (pairwise_precedes_keys history).sublist sub⟩, fun name => ⟨fun tool => ?_, ?_, ?_⟩,
    ⟨(Registry.length_list _).symm, ?_⟩, ⟨fun tool refusal => ?_, fun change refusal other => ?_,
    fun change refusal refused => ?_⟩, fun tool between apart => ?_,
    fun name between visible apart => ?_⟩
  · rw [Registry.get_eq_ok_iff, lists_iff]
  · rw [Registry.mem_list_iff, Registry.get_eq_error_iff, not_exists]
    exact (and_iff_left rfl).symm
  · rw [Registry.contains_iff, Registry.mem_list_iff]
  · rw [Registry.isEmpty, beq_iff_eq, ← Registry.length_list, List.length_eq_zero_iff]
  · rw [Registry.register_eq_error_iff, taken_iff]
  · rw [Registry.change_eq_error_iff other, taken_iff, not_not]
  · rw [registry_append_singleton, Registry.after_of_change_eq_error refused]
  · rw [registry_append, registry_append]
    exact Registry.list_afterAll_unregister_register apart
  · obtain ⟨tool, held⟩ := Registry.mem_list_iff.mp visible
    rw [registry_append, registry_append]
    exact Registry.afterAll_disable_enable held apart

/-- A tool that takes any object. -/
def openTool (name : String) : Tool where
  name
  input := (Node.bare .object).numbered

/-- Tools come and go: `browse` is hidden, registered again in vain and shown, `ask` is removed
and comes back, `call` is hidden in the end, and `dial` is never registered. -/
def desk : RegistryHistory := [
  .register (openTool "ask"), .register (openTool "browse"), .register (openTool "call"),
  .disable "browse", .register (openTool "browse"), .unregister "ask", .disable "ask",
  .enable "browse", .unregister "dial", .register (openTool "ask"), .disable "call"]

theorem registry_lists_history_desk :
    desk.registry.list = ["browse", "ask"] ∧
    desk.registry.get "call" = .error (.notFound "call") ∧
    desk.registry.change (.register (openTool "call")) = .error (.alreadyRegistered "call") ∧
    desk.Taken "call" ∧ ¬ desk.Taken "dial" ∧
    desk.registry.change (.enable "dial") = .error (.notFound "dial") ∧
    RegistryHistory.registry (desk ++ [.enable "dial"]) = desk.registry ∧
    (RegistryHistory.registry (desk ++ [.unregister "browse", .disable "ask",
      .register (openTool "browse")])).list = ["browse"] ∧
    RegistryHistory.registry (desk ++ [.disable "browse", .enable "call", .enable "browse"]) =
      RegistryHistory.registry (desk ++ [.enable "call"]) := by
  obtain ⟨-, seen, -, ⟨registers, others, unchanged⟩, again, back⟩ := registry_lists_history desk
  have listed : desk.registry.list = ["browse", "ask"] := by decide
  have taken : desk.registry.change (.register (openTool "call")) =
      .error (.alreadyRegistered "call") := rfl
  have absent : desk.registry.change (.enable "dial") = .error (.notFound "dial") := rfl
  have noTool : ∀ tool, RegistryChange.enable "dial" ≠ .register tool := by
    intro tool he
    cases he
  have moved := again (openTool "browse") [.disable "ask"] (by decide)
  refine ⟨listed, (seen "call").2.1.mp (by rw [listed]; decide), taken,
    ((registers _ _).mp taken).1, ((others _ _ noTool).mp absent).1, absent,
    unchanged _ _ absent, moved.trans (by decide), ?_⟩
  exact back "browse" [.enable "call"] (by rw [listed]; decide) (by decide)

end SchemaGate
