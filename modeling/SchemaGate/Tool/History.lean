import SchemaGate.Tool.Registry

/-!
# Histories of a registry

A history is the list of all changes that were asked of a registry, from an empty one on
and refused ones included. It says by itself which names are taken, which registration of a
name counts, and whether anything hides it since: nothing here looks into a registry or asks
which changes went through. A registration that counts found its name free, and no removal
of the name follows it.
-/

namespace SchemaGate

/-- The name that a change is about. -/
def RegistryChange.name : RegistryChange → String
  | register tool => tool.name
  | unregister name => name
  | enable name => name
  | disable name => name

/-- The registry after changes, made one after the other. -/
def Registry.afterAll (registry : Registry) (changes : List RegistryChange) : Registry :=
  changes.foldl after registry

theorem Registry.afterAll_cons (registry : Registry) (change : RegistryChange)
    (changes : List RegistryChange) :
    registry.afterAll (change :: changes) = (registry.after change).afterAll changes := rfl

theorem Registry.afterAll_append (registry : Registry) (changes rest : List RegistryChange) :
    registry.afterAll (changes ++ rest) = (registry.afterAll changes).afterAll rest :=
  List.foldl_append

/-- Changes asked of an empty registry, oldest first. -/
abbrev RegistryHistory := List RegistryChange

namespace RegistryHistory

/-- The registry that a history leads to. -/
def registry (history : RegistryHistory) : Registry := Registry.empty.afterAll history

/-- A name is taken if some registration of it has no removal of it behind it. -/
def Taken (history : RegistryHistory) (name : String) : Prop :=
  ∃ before tool later, history = before ++ .register tool :: later ∧ tool.name = name ∧
    .unregister name ∉ later

/-- The registration of a name that counts, between the changes before and after it. -/
structure Registered (history : RegistryHistory) (name : String) (before : RegistryHistory)
    (tool : Tool) (later : List RegistryChange) : Prop where
  /-- It stands between them. -/
  split : history = before ++ .register tool :: later
  /-- It is about the name. -/
  named : tool.name = name
  /-- It found the name free. -/
  free : ¬ Taken before name
  /-- Nothing removed the name since. -/
  kept : .unregister name ∉ later

/-- Nothing hides a name in the end: whatever hid it, something showed it after that. -/
def Shown (later : List RegistryChange) (name : String) : Prop :=
  ∀ front back, later = front ++ .disable name :: back → .enable name ∈ back

/-- A tool is listed under a name if its registration counts and nothing hides it since. -/
def Lists (history : RegistryHistory) (name : String) (tool : Tool) : Prop :=
  ∃ before later, Registered history name before tool later ∧ Shown later name

/-- The registration of the first name that counts came before that of the second. -/
def Precedes (history : RegistryHistory) (first second : String) : Prop :=
  ∃ before tool later before' tool' later', history.Registered first before tool later ∧
    history.Registered second before' tool' later' ∧ before.length < before'.length

/-- In a list with one more element at the end, what stands somewhere is the new element or
stood there before. -/
theorem append_singleton_eq_split_iff {α : Type} {list before later : List α} {last item : α} :
    list ++ [last] = before ++ item :: later ↔
      (later = [] ∧ before = list ∧ item = last) ∨
      ∃ rest, later = rest ++ [last] ∧ list = before ++ item :: rest := by
  constructor
  · intro h
    rcases List.eq_nil_or_concat later with rfl | ⟨rest, final, rfl⟩
    · obtain ⟨rfl, he⟩ := List.append_inj' h rfl
      exact .inl ⟨rfl, rfl, (List.singleton_inj.mp he).symm⟩
    · rw [List.concat_eq_append, ← List.cons_append, ← List.append_assoc] at h
      obtain ⟨rfl, he⟩ := List.append_inj' h rfl
      obtain rfl := List.singleton_inj.mp he
      exact .inr ⟨rest, List.concat_eq_append, rfl⟩
  · rintro (⟨rfl, rfl, rfl⟩ | ⟨rest, rfl, rfl⟩)
    · rfl
    · rw [List.append_assoc, List.cons_append]

variable {history before : RegistryHistory} {change : RegistryChange} {name : String}
  {tool : Tool} {later : List RegistryChange}

/-- A change takes a name if it registers it, and leaves it taken unless it removes it. -/
theorem taken_append_singleton_iff :
    Taken (history ++ [change]) name ↔ (∃ tool, change = .register tool ∧ tool.name = name) ∨
      change ≠ .unregister name ∧ Taken history name := by
  constructor
  · rintro ⟨before, tool, later, hs, hn, hk⟩
    rcases append_singleton_eq_split_iff.mp hs with ⟨-, -, he⟩ | ⟨rest, rfl, inner⟩
    · exact .inl ⟨tool, he.symm, hn⟩
    · rw [List.mem_append, List.mem_singleton, not_or] at hk
      exact .inr ⟨fun he => hk.2 he.symm, before, tool, rest, inner, hn, hk.1⟩
  · rintro (⟨tool, rfl, hn⟩ | ⟨hne, before, tool, rest, hs, hn, hk⟩)
    · exact ⟨history, tool, [], rfl, hn, List.not_mem_nil⟩
    · refine ⟨before, tool, rest ++ [change],
        append_singleton_eq_split_iff.mpr (.inr ⟨rest, rfl, hs⟩), hn, ?_⟩
      rw [List.mem_append, List.mem_singleton, not_or]
      exact ⟨hk, fun he => hne he.symm⟩

/-- A registration of a free name counts from then on; another one counts as long as nothing
removes the name. -/
theorem registered_append_singleton_iff :
    Registered (history ++ [change]) name before tool later ↔
      (before = history ∧ later = [] ∧ change = .register tool ∧ tool.name = name ∧
        ¬ Taken history name) ∨
      ∃ rest, later = rest ++ [change] ∧ change ≠ .unregister name ∧
        Registered history name before tool rest := by
  constructor
  · rintro ⟨hs, hn, hf, hk⟩
    rcases append_singleton_eq_split_iff.mp hs with ⟨rfl, rfl, he⟩ | ⟨rest, rfl, inner⟩
    · exact .inl ⟨rfl, rfl, he.symm, hn, hf⟩
    · rw [List.mem_append, List.mem_singleton, not_or] at hk
      exact .inr ⟨rest, rfl, fun he => hk.2 he.symm, inner, hn, hf, hk.1⟩
  · rintro (⟨rfl, rfl, rfl, hn, hf⟩ | ⟨rest, rfl, hne, hs, hn, hf, hk⟩)
    · exact ⟨rfl, hn, hf, List.not_mem_nil⟩
    · refine ⟨append_singleton_eq_split_iff.mpr (.inr ⟨rest, rfl, hs⟩), hn, hf, ?_⟩
      rw [List.mem_append, List.mem_singleton, not_or]
      exact ⟨hk, fun he => hne he.symm⟩

theorem shown_nil (name : String) : Shown [] name := by
  intro front back h
  simp at h

/-- A change shows a name, hides it, or leaves it as it is. -/
theorem shown_append_singleton_iff :
    Shown (later ++ [change]) name ↔
      change = .enable name ∨ change ≠ .disable name ∧ Shown later name := by
  constructor
  · intro h
    by_cases he : change = .enable name
    · exact .inl he
    · refine .inr ⟨?_, fun front back hs => ?_⟩
      · rintro rfl
        exact absurd (h later [] rfl) List.not_mem_nil
      · have hm := h front (back ++ [change])
          (append_singleton_eq_split_iff.mpr (.inr ⟨back, rfl, hs⟩))
        rw [List.mem_append, List.mem_singleton] at hm
        exact hm.resolve_right fun heq => he heq.symm
  · intro h front back hs
    rcases append_singleton_eq_split_iff.mp hs with ⟨-, -, rfl⟩ | ⟨rest, rfl, inner⟩
    · rcases h with he | ⟨hne, -⟩
      · cases he
      · exact absurd rfl hne
    · rw [List.mem_append, List.mem_singleton]
      exact h.symm.imp (fun h => h.2 front rest inner) fun he => he.symm

/-- A registration that counts keeps counting unless its name is removed. -/
theorem Registered.append_singleton (h : Registered history name before tool later)
    (hne : change ≠ .unregister name) :
    Registered (history ++ [change]) name before tool (later ++ [change]) :=
  registered_append_singleton_iff.mpr (.inr ⟨later, rfl, hne, h⟩)

theorem Registered.taken (h : Registered history name before tool later) : Taken history name :=
  ⟨before, tool, later, h.split, h.named, h.kept⟩

/-- No two registrations of a name count: the later one would have found the name taken. -/
theorem Registered.length_le {before' : RegistryHistory} {tool' : Tool}
    {later' : List RegistryChange} (h : Registered history name before tool later)
    (h' : Registered history name before' tool' later') : before'.length ≤ before.length := by
  rcases List.append_eq_append_iff.mp (h.split.symm.trans h'.split) with
    ⟨between, hb, hl⟩ | ⟨between, hb, -⟩
  · cases between with
    | nil => simp [hb]
    | cons first between =>
      obtain ⟨rfl, rfl⟩ := List.cons_eq_cons.mp hl
      have kept : .unregister name ∉ between := fun hm => h.kept (List.mem_append_left _ hm)
      exact absurd ⟨before, tool, between, hb, h.named, kept⟩ h'.free
  · rw [hb, List.length_append]
    omega

theorem Registered.unique {before' : RegistryHistory} {tool' : Tool}
    {later' : List RegistryChange} (h : Registered history name before tool later)
    (h' : Registered history name before' tool' later') : tool = tool' ∧ later = later' := by
  have same : before.length = before'.length := Nat.le_antisymm (h'.length_le h) (h.length_le h')
  have parts := List.append_inj (h.split.symm.trans h'.split) same
  obtain ⟨he, rfl⟩ := List.cons_eq_cons.mp parts.2
  exact ⟨RegistryChange.register.inj he, rfl⟩

/-- A registration was made before the end of its history. -/
theorem Registered.length_lt (h : Registered history name before tool later) :
    before.length < history.length := by
  rw [h.split, List.length_append, List.length_cons]
  omega

/-- Further changes leave the order of registrations alone unless they remove a name. -/
theorem Precedes.append_singleton {first second : String} (h : Precedes history first second)
    (hf : change ≠ .unregister first) (hs : change ≠ .unregister second) :
    Precedes (history ++ [change]) first second := by
  obtain ⟨before, tool, later, before', tool', later', left, right, less⟩ := h
  exact ⟨before, tool, _, before', tool', _, left.append_singleton hf,
    right.append_singleton hs, less⟩

end RegistryHistory

end SchemaGate
