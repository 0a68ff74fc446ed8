/-!
# Lists of keyed entries

A keyed list holds one entry per key and remembers the order in which keys first
arrived: inserting under a present key replaces the entry and keeps its place.
Looking up what was inserted gives it back, other keys are untouched, and keys
stay distinct; dropping an entry leaves the others in their order. `sortedInsert` is the
other discipline, entries in rising order of their keys, which values use for the members of
an object: `sorted` brings keys into rising order and leaves rising ones alone.
-/

namespace SchemaGate

variable {κ α : Type}

/-- Entries under keys, in the order of the keys' first arrival. -/
abbrev KeyedList (κ α : Type) := List (κ × α)

namespace KeyedList

/-- The keys, in order. -/
def keys (entries : KeyedList κ α) : List κ := entries.map Prod.fst

/-- The entries without their keys, in order. -/
def values (entries : KeyedList κ α) : List α := entries.map Prod.snd

/-- An entry for each of some keys. -/
def tabulate (keys : List κ) (value : κ → α) : KeyedList κ α :=
  keys.map fun key => (key, value key)

theorem keys_tabulate (held : List κ) (value : κ → α) : (tabulate held value).keys = held := by
  rw [tabulate, keys, List.map_map]
  exact List.map_id held

/-- Changing every value leaves the keys alone. -/
theorem keys_map {β : Type} (f : α → β) (entries : KeyedList κ α) :
    keys (entries.map fun e => (e.1, f e.2)) = entries.keys := by
  rw [keys, keys, List.map_map]
  rfl

section Lookup

variable [DecidableEq κ]

/-- The entry under a key, the first one if the key is repeated. -/
def find? (key : κ) : KeyedList κ α → Option α
  | [] => none
  | (k, a) :: rest => if k = key then some a else find? key rest

/-- Replace the entry under a key in its place, or append a new one. -/
def insert (key : κ) (value : α) : KeyedList κ α → KeyedList κ α
  | [] => [(key, value)]
  | (k, a) :: rest => if k = key then (key, value) :: rest else (k, a) :: insert key value rest

/-- Drop the entry under a key; the others keep their order. -/
def erase (key : κ) : KeyedList κ α → KeyedList κ α
  | [] => []
  | (k, a) :: rest => if k = key then rest else (k, a) :: erase key rest

/-- Insert entries one after the other. -/
def ofList (entries : List (κ × α)) : KeyedList κ α :=
  entries.foldl (fun held e => held.insert e.1 e.2) []

theorem find?_eq_none_iff {key : κ} {entries : KeyedList κ α} :
    entries.find? key = none ↔ key ∉ entries.keys := by
  induction entries with
  | nil => simp [find?, keys]
  | cons e rest ih =>
    obtain ⟨k, a⟩ := e
    by_cases h : k = key
    · simp [find?, keys, h]
    · have h' : ¬ key = k := fun e => h e.symm
      simpa [find?, keys, h, h'] using ih

/-- The keys are those under which something is found. -/
theorem mem_keys_iff {key : κ} {entries : KeyedList κ α} :
    key ∈ entries.keys ↔ ∃ value, entries.find? key = some value := by
  rw [← Decidable.not_not (p := key ∈ entries.keys), ← find?_eq_none_iff]
  cases entries.find? key <;> simp

/-- An entry that is found is an entry. -/
theorem mem_of_find?_eq_some {key : κ} {value : α} {entries : KeyedList κ α}
    (h : entries.find? key = some value) : (key, value) ∈ entries := by
  induction entries with
  | nil => simp [find?] at h
  | cons e rest ih =>
    obtain ⟨k, a⟩ := e
    rw [find?] at h
    split at h
    · next hk =>
      obtain rfl := Option.some.inj h
      rw [hk]
      exact List.mem_cons_self
    · exact List.mem_cons_of_mem _ (ih h)

/-- Where keys are distinct, every entry is found. -/
theorem find?_eq_some_iff {key : κ} {value : α} {entries : KeyedList κ α}
    (hn : entries.keys.Nodup) : entries.find? key = some value ↔ (key, value) ∈ entries := by
  refine ⟨mem_of_find?_eq_some, fun h => ?_⟩
  induction entries with
  | nil => exact absurd h List.not_mem_nil
  | cons e rest ih =>
    obtain ⟨k, a⟩ := e
    obtain ⟨hk, hr⟩ := List.nodup_cons.mp hn
    rcases List.mem_cons.mp h with h | h
    · obtain ⟨rfl, rfl⟩ := Prod.mk.inj h
      exact if_pos rfl
    · have hne : k ≠ key := fun he => hk (List.mem_map.mpr ⟨_, h, he.symm⟩)
      rw [find?, if_neg hne]
      exact ih hr h

/-- Under each key of a table its value is found. -/
theorem find?_tabulate {held : List κ} {key : κ} (hk : key ∈ held) (value : κ → α) :
    (tabulate held value).find? key = some (value key) := by
  induction held with
  | nil => exact absurd hk List.not_mem_nil
  | cons first rest ih =>
    rw [tabulate, List.map_cons, find?]
    split
    · next same => rw [same]
    · next apart => exact ih ((List.mem_cons.mp hk).resolve_left fun same => apart same.symm)

/-- That keys missing on the right are missing on the left, and that what both sides hold
under one key is related, means that everything on the left has a partner on the right. -/
theorem forall_exists_find?_iff {β : Type} {entries : KeyedList κ α} {others : KeyedList κ β}
    {r : α → β → Prop} :
    (∀ key value, entries.find? key = some value →
        ∃ other, others.find? key = some other ∧ r value other) ↔
      (∀ key, others.find? key = none → entries.find? key = none) ∧
      ∀ key value other, entries.find? key = some value → others.find? key = some other →
        r value other := by
  constructor
  · intro h
    refine ⟨fun key hn => ?_, fun key value other hv ho => ?_⟩
    · cases hv : entries.find? key with
      | none => rfl
      | some value =>
        obtain ⟨other, ho, -⟩ := h key value hv
        rw [hn] at ho
        cases ho
    · obtain ⟨partner, hp, hr⟩ := h key value hv
      obtain rfl : other = partner := Option.some.inj (ho.symm.trans hp)
      exact hr
  · rintro ⟨absent, both⟩ key value hv
    cases ho : others.find? key with
    | none =>
      rw [absent key ho] at hv
      cases hv
    | some other => exact ⟨other, rfl, both key value other hv ho⟩

/-- Changing every value changes what is found. -/
theorem find?_map {β : Type} (f : α → β) (key : κ) (entries : KeyedList κ α) :
    find? key (entries.map fun e => (e.1, f e.2)) = (entries.find? key).map f := by
  induction entries with
  | nil => rfl
  | cons e rest ih =>
    obtain ⟨k, a⟩ := e
    by_cases h : k = key <;> simp [find?, h, ih]

theorem find?_insert_self (key : κ) (value : α) (entries : KeyedList κ α) :
    (entries.insert key value).find? key = some value := by
  induction entries with
  | nil => simp [insert, find?]
  | cons e rest ih =>
    obtain ⟨k, a⟩ := e
    by_cases h : k = key <;> simp [insert, find?, h, ih]

theorem find?_insert_of_ne {key other : κ} (h : key ≠ other) (value : α)
    (entries : KeyedList κ α) : (entries.insert key value).find? other = entries.find? other := by
  induction entries with
  | nil => simp [insert, find?, h]
  | cons e rest ih =>
    obtain ⟨k, a⟩ := e
    by_cases hk : k = key
    · subst hk
      simp [insert, find?, h]
    · simp [insert, find?, hk, ih]

theorem find?_insert (key other : κ) (value : α) (entries : KeyedList κ α) :
    (entries.insert key value).find? other =
      if key = other then some value else entries.find? other := by
  by_cases h : key = other
  · subst h
    rw [find?_insert_self, if_pos rfl]
  · rw [find?_insert_of_ne h, if_neg h]

/-- A new key goes to the end, a present one keeps its place. -/
theorem keys_insert (key : κ) (value : α) (entries : KeyedList κ α) :
    (entries.insert key value).keys =
      if key ∈ entries.keys then entries.keys else entries.keys ++ [key] := by
  induction entries with
  | nil => simp [insert, keys]
  | cons e rest ih =>
    obtain ⟨k, a⟩ := e
    by_cases h : k = key
    · simp [insert, keys, h]
    · have h' : ¬ key = k := fun e => h e.symm
      by_cases hm : key ∈ keys rest
      · have := ih
        simp only [hm, if_true] at this
        simp only [keys] at this hm
        simp [insert, keys, h, this, hm]
      · have := ih
        simp only [hm, if_false] at this
        simp only [keys] at this hm
        simp [insert, keys, h, h', this, hm]

theorem mem_keys_insert {key other : κ} {value : α} {entries : KeyedList κ α} :
    other ∈ (entries.insert key value).keys ↔ other = key ∨ other ∈ entries.keys := by
  rw [keys_insert]
  split
  · next h => exact ⟨.inr, fun ho => ho.elim (fun he => he ▸ h) id⟩
  · simp [or_comm]

/-- Inserting brings in the given entry alone. -/
theorem mem_of_mem_insert {key : κ} {value : α} {entries : KeyedList κ α} {e : κ × α}
    (h : e ∈ entries.insert key value) : e = (key, value) ∨ e ∈ entries := by
  induction entries with
  | nil => simpa [insert] using h
  | cons first rest ih =>
    obtain ⟨k, a⟩ := first
    unfold insert at h
    split at h
    · exact (List.mem_cons.mp h).imp_right (List.mem_cons_of_mem _)
    · rcases List.mem_cons.mp h with rfl | h
      · exact .inr List.mem_cons_self
      · exact (ih h).imp_right (List.mem_cons_of_mem _)

theorem nodup_keys_insert {key : κ} {value : α} {entries : KeyedList κ α}
    (h : entries.keys.Nodup) : (entries.insert key value).keys.Nodup := by
  rw [keys_insert]
  split
  · exact h
  · next fresh =>
    rw [(List.perm_append_singleton key entries.keys).nodup_iff]
    exact List.nodup_cons.mpr ⟨fresh, h⟩

theorem insert_insert_self (key : κ) (value final : α) (entries : KeyedList κ α) :
    (entries.insert key value).insert key final = entries.insert key final := by
  induction entries with
  | nil => simp [insert]
  | cons e rest ih =>
    obtain ⟨k, a⟩ := e
    by_cases h : k = key <;> simp [insert, h, ih]

/-- Inserting what is there changes nothing. -/
theorem insert_of_find?_eq_some {key : κ} {value : α} {entries : KeyedList κ α}
    (h : entries.find? key = some value) : entries.insert key value = entries := by
  induction entries with
  | nil => cases h
  | cons e rest ih =>
    obtain ⟨k, a⟩ := e
    by_cases hk : k = key
    · obtain rfl : a = value := by simpa [find?, hk] using h
      simp [insert, hk]
    · simp only [find?, if_neg hk] at h
      simp [insert, hk, ih h]

theorem insert_of_find?_eq_none {key : κ} {entries : KeyedList κ α}
    (h : entries.find? key = none) (value : α) :
    entries.insert key value = entries ++ [(key, value)] := by
  induction entries with
  | nil => rfl
  | cons e rest ih =>
    obtain ⟨k, a⟩ := e
    by_cases hk : k = key
    · simp [find?, hk] at h
    · simp only [find?, if_neg hk] at h
      simp [insert, hk, ih h]

/-- Replacing an entry and inserting under another key can be done in either order. -/
theorem insert_comm {key other : κ} (hne : key ≠ other) {entries : KeyedList κ α}
    (hm : other ∈ entries.keys) (value held : α) :
    (entries.insert other held).insert key value =
      (entries.insert key value).insert other held := by
  induction entries with
  | nil => exact absurd hm List.not_mem_nil
  | cons e rest ih =>
    obtain ⟨k, a⟩ := e
    by_cases ho : k = other
    · subst ho
      simp [insert, hne.symm]
    · have hr : other ∈ keys rest := (List.mem_cons.mp hm).resolve_left fun he => ho he.symm
      by_cases hk : k = key
      · subst hk
        simp [insert, hne]
      · simp [insert, ho, hk, ih hr]

theorem erase_insert_comm {key other : κ} (hne : key ≠ other) (held : α)
    (entries : KeyedList κ α) :
    (entries.insert other held).erase key = (entries.erase key).insert other held := by
  induction entries with
  | nil => simp [insert, erase, hne.symm]
  | cons e rest ih =>
    obtain ⟨k, a⟩ := e
    by_cases ho : k = other
    · subst ho
      simp [insert, erase, hne.symm]
    · by_cases hk : k = key
      · subst hk
        simp [insert, erase, hne]
      · simp [insert, erase, ho, hk, ih]

theorem erase_comm (key other : κ) (entries : KeyedList κ α) :
    (entries.erase other).erase key = (entries.erase key).erase other := by
  induction entries with
  | nil => rfl
  | cons e rest ih =>
    obtain ⟨k, a⟩ := e
    by_cases ho : k = other
    · by_cases hk : k = key <;> simp [erase, ← ho, hk]
    · by_cases hk : k = key
      · subst hk
        simp [erase, ho]
      · simp [erase, ho, hk, ih]

theorem keys_erase (key : κ) (entries : KeyedList κ α) :
    (entries.erase key).keys = entries.keys.erase key := by
  induction entries with
  | nil => rfl
  | cons e rest ih =>
    obtain ⟨k, a⟩ := e
    simp only [keys] at ih
    by_cases h : k = key <;> simp [erase, keys, h, ih]

theorem nodup_keys_erase {key : κ} {entries : KeyedList κ α} (h : entries.keys.Nodup) :
    (entries.erase key).keys.Nodup := by
  rw [keys_erase]
  exact h.erase key

/-- Dropping an entry drops its key from the keys of any selection of the entries. -/
theorem keys_filter_erase {key : κ} {entries : KeyedList κ α} (hn : entries.keys.Nodup)
    (p : κ × α → Bool) :
    keys ((entries.erase key).filter p) = (keys (entries.filter p)).erase key := by
  induction entries with
  | nil => rfl
  | cons e rest ih =>
    obtain ⟨hk, hr⟩ := List.nodup_cons.mp hn
    have gone : e.1 ∉ keys (rest.filter p) := fun hm => hk ((List.filter_sublist.map _).subset hm)
    rw [erase, List.filter_cons]
    by_cases he : e.1 = key
    · rw [if_pos he, ← he]
      split
      · exact (List.erase_cons_head _ _).symm
      · exact (List.erase_of_not_mem gone).symm
    · rw [if_neg he, List.filter_cons]
      split
      · exact (congrArg (e.1 :: ·) (ih hr)).trans (List.erase_cons_tail (by simpa using he)).symm
      · exact ih hr

theorem find?_erase_of_ne {key other : κ} (hne : key ≠ other) (entries : KeyedList κ α) :
    (entries.erase key).find? other = entries.find? other := by
  induction entries with
  | nil => rfl
  | cons e rest ih =>
    obtain ⟨k, a⟩ := e
    by_cases h : k = key
    · subst h
      simp [erase, find?, hne]
    · simp [erase, find?, h, ih]

theorem erase_of_find?_eq_none {key : κ} {entries : KeyedList κ α}
    (h : entries.find? key = none) : entries.erase key = entries := by
  induction entries with
  | nil => rfl
  | cons e rest ih =>
    obtain ⟨k, a⟩ := e
    by_cases hk : k = key
    · simp [find?, hk] at h
    · simp only [find?, if_neg hk] at h
      simp [erase, hk, ih h]

/-- Where keys are distinct, nothing is found under a key whose entry is dropped. -/
theorem find?_erase_self {key : κ} {entries : KeyedList κ α} (hn : entries.keys.Nodup) :
    (entries.erase key).find? key = none := by
  rw [find?_eq_none_iff, keys_erase]
  exact hn.not_mem_erase

theorem nodup_keys_ofList (entries : List (κ × α)) : (ofList entries).keys.Nodup := by
  have run : ∀ held : KeyedList κ α, held.keys.Nodup →
      (keys (entries.foldl (fun held e => held.insert e.1 e.2) held)).Nodup := by
    induction entries with
    | nil => exact fun _ h => h
    | cons e rest ih => exact fun held h => ih _ (nodup_keys_insert h)
  exact run [] List.nodup_nil

/-- Collecting entries makes none up. -/
theorem mem_of_mem_ofList {entries : List (κ × α)} {e : κ × α} (h : e ∈ ofList entries) :
    e ∈ entries := by
  have run : ∀ held : KeyedList κ α,
      e ∈ entries.foldl (fun held e => held.insert e.1 e.2) held → e ∈ held ∨ e ∈ entries := by
    clear h
    induction entries with
    | nil => exact fun _ h => .inl h
    | cons first rest ih =>
      intro held h
      rcases ih _ h with h | h
      · exact (mem_of_mem_insert h).elim (fun h => .inr (h ▸ List.mem_cons_self)) .inl
      · exact .inr (List.mem_cons_of_mem _ h)
  exact (run [] h).resolve_left List.not_mem_nil

/-- Entries under distinct keys are collected as they are. -/
theorem ofList_of_nodup {entries : List (κ × α)} (hn : (keys entries).Nodup) :
    ofList entries = entries := by
  have run : ∀ held : KeyedList κ α, (keys (held ++ entries)).Nodup →
      entries.foldl (fun held e => held.insert e.1 e.2) held = held ++ entries := by
    clear hn
    induction entries with
    | nil => simp
    | cons e rest ih =>
      intro held hn
      have fresh : find? e.1 held = none := by
        rw [find?_eq_none_iff]
        intro hm
        rw [keys, List.map_append, List.nodup_append] at hn
        exact hn.2.2 e.1 hm e.1 (by simp) rfl
      rw [List.foldl_cons, insert_of_find?_eq_none fresh, ih _ (by simpa using hn)]
      simp
  exact run [] hn

end Lookup

section Sorted

variable {ρ : Type}

/-- Insert in rising order of keys, replacing the entry of a present key. -/
def sortedInsert (key : String) (value : ρ) : KeyedList String ρ → KeyedList String ρ
  | [] => [(key, value)]
  | (k, a) :: rest =>
    if key < k then (key, value) :: (k, a) :: rest
    else if key = k then (key, value) :: rest
    else (k, a) :: sortedInsert key value rest

/-- Sort entries by key; of several under one key the last stays. -/
def sorted (entries : List (String × ρ)) : KeyedList String ρ :=
  entries.foldl (fun held e => sortedInsert e.1 e.2 held) []

/-- The keys stand in strictly rising order. -/
def IsRising (entries : KeyedList String ρ) : Prop := entries.keys.Pairwise (· < ·)

theorem isRising_iff {entries : KeyedList String ρ} :
    IsRising entries ↔ entries.Pairwise fun first second => first.1 < second.1 :=
  List.pairwise_map

theorem mem_keys_sortedInsert {key other : String} {value : ρ} {entries : KeyedList String ρ} :
    other ∈ (sortedInsert key value entries).keys ↔ other = key ∨ other ∈ entries.keys := by
  induction entries with
  | nil => simp [sortedInsert, keys]
  | cons e rest ih =>
    obtain ⟨k, a⟩ := e
    simp only [keys] at ih
    unfold sortedInsert
    split
    · simp [keys]
    · split
      · next h => simp [keys, h]
      · simp [keys, ih, or_left_comm]

theorem mem_of_mem_sortedInsert {key : String} {value : ρ} {entries : KeyedList String ρ}
    {e : String × ρ} (h : e ∈ sortedInsert key value entries) : e = (key, value) ∨ e ∈ entries := by
  induction entries with
  | nil => simpa [sortedInsert] using h
  | cons first rest ih =>
    obtain ⟨k, a⟩ := first
    unfold sortedInsert at h
    split at h
    · simpa using h
    · split at h
      · exact (List.mem_cons.mp h).imp_right (List.mem_cons_of_mem _)
      · rcases List.mem_cons.mp h with rfl | h
        · exact .inr List.mem_cons_self
        · exact (ih h).imp_right (List.mem_cons_of_mem _)

/-- Sorting makes no entries up. -/
theorem mem_of_mem_sorted {entries : List (String × ρ)} {e : String × ρ}
    (h : e ∈ sorted entries) : e ∈ entries := by
  have run : ∀ held : KeyedList String ρ,
      e ∈ entries.foldl (fun held e => sortedInsert e.1 e.2 held) held →
        e ∈ held ∨ e ∈ entries := by
    clear h
    induction entries with
    | nil => exact fun _ h => .inl h
    | cons first rest ih =>
      intro held h
      rcases ih _ h with h | h
      · exact (mem_of_mem_sortedInsert h).elim (fun h => .inr (h ▸ List.mem_cons_self)) .inl
      · exact .inr (List.mem_cons_of_mem _ h)
  exact (run [] h).resolve_left List.not_mem_nil

theorem isRising_sortedInsert {key : String} {value : ρ} {entries : KeyedList String ρ}
    (h : IsRising entries) : IsRising (sortedInsert key value entries) := by
  induction entries with
  | nil => simp [sortedInsert, IsRising, keys]
  | cons e rest ih =>
    obtain ⟨k, a⟩ := e
    obtain ⟨above, later⟩ := List.pairwise_cons.mp h
    unfold sortedInsert
    split
    · next hk =>
      refine List.pairwise_cons.mpr ⟨fun other ho => ?_, h⟩
      rcases List.mem_cons.mp ho with rfl | ho
      · exact hk
      · exact String.lt_trans hk (above other ho)
    · next hk =>
      split
      · next he => exact List.pairwise_cons.mpr ⟨he ▸ above, later⟩
      · next he =>
        refine List.pairwise_cons.mpr ⟨fun other ho => ?_, ih later⟩
        rcases mem_keys_sortedInsert.mp ho with rfl | ho
        · exact Decidable.byContradiction fun hn =>
            he (String.le_antisymm (String.not_lt.mp hn) (String.not_lt.mp hk))
        · exact above other ho

/-- Sorting brings keys into rising order. -/
theorem isRising_sorted (entries : List (String × ρ)) : IsRising (sorted entries) := by
  have run : ∀ held : KeyedList String ρ, IsRising held →
      IsRising (entries.foldl (fun held e => sortedInsert e.1 e.2 held) held) := by
    induction entries with
    | nil => exact fun _ h => h
    | cons e rest ih => exact fun held h => ih _ (isRising_sortedInsert h)
  exact run [] List.Pairwise.nil

theorem nodup_keys_of_isRising {entries : KeyedList String ρ} (h : IsRising entries) :
    entries.keys.Nodup := by
  apply List.Pairwise.imp _ h
  intro a b hab he
  subst he
  exact String.lt_irrefl a hab

theorem sortedInsert_map {σ : Type} (f : ρ → σ) (key : String) (value : ρ)
    (entries : KeyedList String ρ) :
    sortedInsert key (f value) (entries.map fun e => (e.1, f e.2)) =
      (sortedInsert key value entries).map fun e => (e.1, f e.2) := by
  induction entries with
  | nil => rfl
  | cons e rest ih =>
    obtain ⟨k, a⟩ := e
    rw [List.map_cons, sortedInsert, sortedInsert]
    split
    · rfl
    · split
      · rfl
      · rw [List.map_cons, ih]

/-- Sorting looks at keys alone. -/
theorem sorted_map {σ : Type} (f : ρ → σ) (entries : List (String × ρ)) :
    sorted (entries.map fun e => (e.1, f e.2)) = (sorted entries).map fun e => (e.1, f e.2) := by
  have run : ∀ held : KeyedList String ρ,
      (entries.map fun e => (e.1, f e.2)).foldl (fun held e => sortedInsert e.1 e.2 held)
          (held.map fun e => (e.1, f e.2)) =
        (entries.foldl (fun held e => sortedInsert e.1 e.2 held) held).map
          fun e => (e.1, f e.2) := by
    induction entries with
    | nil => exact fun _ => rfl
    | cons e rest ih =>
      intro held
      simp only [List.map_cons, List.foldl_cons, sortedInsert_map, ih]
  exact run []

theorem sortedInsert_perm {key : String} {value : ρ} {entries : KeyedList String ρ}
    (h : key ∉ entries.keys) : (sortedInsert key value entries).Perm ((key, value) :: entries) := by
  induction entries with
  | nil => exact .refl _
  | cons e rest ih =>
    obtain ⟨k, a⟩ := e
    obtain ⟨hk, hr⟩ := not_or.mp (mt List.mem_cons.mpr h)
    rw [sortedInsert]
    split
    · exact .refl _
    · exact ((ih hr).cons _).trans (.swap _ _ _)

/-- Sorting entries under distinct keys only reorders them. -/
theorem sorted_perm {entries : List (String × ρ)} (hn : (keys entries).Nodup) :
    (sorted entries).Perm entries := by
  have run : ∀ held : KeyedList String ρ, (keys (held ++ entries)).Nodup →
      (entries.foldl (fun held e => sortedInsert e.1 e.2 held) held).Perm (held ++ entries) := by
    clear hn
    induction entries with
    | nil => simp
    | cons e rest ih =>
      intro held hn
      have fresh : e.1 ∉ keys held := by
        intro hm
        rw [keys, List.map_append, List.nodup_append] at hn
        exact hn.2.2 e.1 hm e.1 (by simp) rfl
      have same : (sortedInsert e.1 e.2 held ++ rest).Perm (held ++ e :: rest) :=
        ((sortedInsert_perm fresh).append_right rest).trans List.perm_middle.symm
      exact (ih _ ((same.map Prod.fst).nodup_iff.mpr hn)).trans same
  exact run [] hn

/-- Where keys are distinct, the order of entries does not matter to what is found. -/
theorem find?_of_perm {entries others : List (String × ρ)} (hn : (keys entries).Nodup)
    (h : entries.Perm others) (key : String) : find? key entries = find? key others := by
  have hn' : (keys others).Nodup := (h.map Prod.fst).nodup_iff.mp hn
  ext value
  rw [find?_eq_some_iff hn, find?_eq_some_iff hn', h.mem_iff]

/-- Sorting entries under distinct keys changes nothing that is found. -/
theorem find?_sorted {entries : List (String × ρ)} (hn : (keys entries).Nodup) (key : String) :
    find? key (sorted entries) = find? key entries :=
  (find?_of_perm hn (sorted_perm hn).symm key).symm

/-- Sorting entries gives the one arrangement of them in which keys rise. -/
theorem sorted_eq_of_perm {entries rising : List (String × ρ)} (hr : IsRising rising)
    (h : entries.Perm rising) : sorted entries = rising := by
  have hn : (keys entries).Nodup := (h.map Prod.fst).nodup_iff.mpr (nodup_keys_of_isRising hr)
  exact ((sorted_perm hn).trans h).eq_of_pairwise
    (fun _ _ _ _ hl hg => absurd hg (String.lt_asymm hl))
    (isRising_iff.mp (isRising_sorted entries)) (isRising_iff.mp hr)

/-- Rising entries are sorted already. -/
theorem sorted_of_isRising {entries : List (String × ρ)} (h : IsRising entries) :
    sorted entries = entries :=
  sorted_eq_of_perm h (.refl _)

/-- Sorting twice is sorting once. -/
theorem sorted_sorted (entries : List (String × ρ)) : sorted (sorted entries) = sorted entries :=
  sorted_of_isRising (isRising_sorted entries)

/-- No key that is found among rising entries is smaller than the first one. -/
theorem not_lt_of_find?_ne_none {key first : String} {value : ρ} {rest : KeyedList String ρ}
    (h : IsRising ((first, value) :: rest)) (hf : find? key ((first, value) :: rest) ≠ none) :
    ¬ key < first := by
  intro hl
  obtain ⟨above, -⟩ := List.pairwise_cons.mp h
  refine hf (find?_eq_none_iff.mpr fun hm => ?_)
  rcases List.mem_cons.mp hm with he | hm
  · exact String.lt_irrefl _ (he ▸ hl)
  · exact String.lt_asymm hl (above key hm)

/-- Rising entries are told apart by what is found in them. -/
theorem ext_of_isRising {entries others : KeyedList String ρ} (ha : IsRising entries)
    (hb : IsRising others) (h : ∀ key, find? key entries = find? key others) :
    entries = others := by
  induction entries generalizing others with
  | nil =>
    cases others with
    | nil => rfl
    | cons e rest => simpa [find?] using h e.1
  | cons e rest ih =>
    obtain ⟨k, a⟩ := e
    cases others with
    | nil => simpa [find?] using h k
    | cons e' rest' =>
      obtain ⟨l, b⟩ := e'
      obtain ⟨above, rising⟩ := List.pairwise_cons.mp ha
      obtain ⟨above', rising'⟩ := List.pairwise_cons.mp hb
      have upper : ¬ k < l := not_lt_of_find?_ne_none hb (by rw [← h k]; simp [find?])
      have lower : ¬ l < k := not_lt_of_find?_ne_none ha (by rw [h l]; simp [find?])
      obtain rfl : k = l := String.le_antisymm (String.not_lt.mp lower) (String.not_lt.mp upper)
      have first := h k
      simp only [find?, if_pos] at first
      obtain rfl := Option.some.inj first
      congr 1
      refine ih rising rising' fun key => ?_
      by_cases hk : k = key
      · subst hk
        rw [find?_eq_none_iff.mpr fun hm => String.lt_irrefl _ (above k hm),
          find?_eq_none_iff.mpr fun hm => String.lt_irrefl _ (above' k hm)]
      · simpa [find?, hk] using h key

end Sorted

end KeyedList

end SchemaGate
