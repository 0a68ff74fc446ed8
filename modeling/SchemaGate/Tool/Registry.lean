import SchemaGate.KeyedList
import SchemaGate.Tool.Basic

/-!
# Registries of tools

A registry holds tools under their names, in the order of their registration. A
disabled tool stays registered and keeps its place but is hidden from look-ups and
listings. A locked registry is the same behind a lock; once a writer has crashed while
holding the lock, every access fails.
-/

namespace SchemaGate

/-- Why a registry refuses. -/
inductive RegistryRefusal where
  /-- The name is taken, if only by a disabled tool. -/
  | alreadyRegistered (name : String)
  /-- No such tool can be seen. -/
  | notFound (name : String)
  /-- A writer crashed while holding the lock. -/
  | poisoned
  deriving DecidableEq, Repr

/-- The wording of the refusal. -/
def RegistryRefusal.message : RegistryRefusal → String
  | .alreadyRegistered name => "tool already registered: " ++ name
  | .notFound name => "tool not found: " ++ name
  | .poisoned => "tool registry lock poisoned"

/-- A registered tool. -/
structure Registration where
  /-- The tool. -/
  tool : Tool
  /-- Whether it can be seen. -/
  enabled : Bool := true

/-- Tools under their names, in the order of registration. -/
@[ext] structure Registry where
  /-- The registered tools. -/
  registrations : KeyedList String Registration := []
  /-- No name is registered twice. -/
  distinct : registrations.keys.Nodup := by decide

/-- A change to a registry. -/
inductive RegistryChange where
  /-- Register a tool at the end. -/
  | register (tool : Tool)
  /-- Remove a tool. -/
  | unregister (name : String)
  /-- Show a tool. -/
  | enable (name : String)
  /-- Hide a tool. -/
  | disable (name : String)

namespace Registry

/-- The registry without tools. -/
def empty : Registry := {}

/-- The tool under a name, hidden or not. -/
def registration? (registry : Registry) (name : String) : Option Registration :=
  KeyedList.find? name registry.registrations

/-- Hold a registration under a name, in the place of the one that was there or at the end. -/
def put (registry : Registry) (name : String) (held : Registration) : Registry where
  registrations := registry.registrations.insert name held
  distinct := KeyedList.nodup_keys_insert registry.distinct

/-- Hold nothing under a name; the others keep their order. -/
def drop (registry : Registry) (name : String) : Registry where
  registrations := registry.registrations.erase name
  distinct := KeyedList.nodup_keys_erase registry.distinct

/-- Register a tool; a present name is refused even if its tool is disabled. -/
def register (registry : Registry) (tool : Tool) : Except RegistryRefusal Registry :=
  match registry.registration? tool.name with
  | some _ => .error (.alreadyRegistered tool.name)
  | none => .ok (registry.put tool.name { tool })

/-- Remove a tool; the others keep their order. -/
def unregister (registry : Registry) (name : String) : Except RegistryRefusal Registry :=
  match registry.registration? name with
  | some _ => .ok (registry.drop name)
  | none => .error (.notFound name)

/-- Show or hide a tool in its place. -/
def setEnabled (registry : Registry) (name : String) (enabled : Bool) :
    Except RegistryRefusal Registry :=
  match registry.registration? name with
  | some held => .ok (registry.put name { held with enabled })
  | none => .error (.notFound name)

/-- Make a change, or say why not. -/
def change (registry : Registry) : RegistryChange → Except RegistryRefusal Registry
  | .register tool => registry.register tool
  | .unregister name => registry.unregister name
  | .enable name => registry.setEnabled name true
  | .disable name => registry.setEnabled name false

/-- The registry after a change; a refused one leaves it as it was. -/
def after (registry : Registry) (change : RegistryChange) : Registry :=
  match registry.change change with
  | .ok changed => changed
  | .error _ => registry

/-- The tool under a name, if it can be seen. -/
def get (registry : Registry) (name : String) : Except RegistryRefusal Tool :=
  match registry.registration? name with
  | some ⟨tool, true⟩ => .ok tool
  | _ => .error (.notFound name)

/-- Whether a tool can be seen. -/
def contains (registry : Registry) (name : String) : Bool :=
  (registry.registration? name).any Registration.enabled

/-- The names of the tools that can be seen, in order. -/
def list (registry : Registry) : List String :=
  (registry.registrations.filter fun held => held.2.enabled).map Prod.fst

/-- How many tools can be seen. -/
def count (registry : Registry) : Nat :=
  (registry.registrations.filter fun held => held.2.enabled).length

/-- Whether no tool can be seen. -/
def isEmpty (registry : Registry) : Bool := registry.count == 0

variable {registry : Registry} {name : String}

theorem registration?_put (registry : Registry) (name other : String) (held : Registration) :
    (registry.put name held).registration? other =
      if name = other then some held else registry.registration? other :=
  KeyedList.find?_insert name other held registry.registrations

theorem registration?_drop (registry : Registry) (name other : String) :
    (registry.drop name).registration? other =
      if name = other then none else registry.registration? other := by
  split
  · next same =>
    subst same
    exact KeyedList.find?_erase_self registry.distinct
  · next apart => exact KeyedList.find?_erase_of_ne apart registry.registrations

/-- Holding what is held changes nothing. -/
theorem put_of_registration? {held : Registration} (h : registry.registration? name = some held) :
    registry.put name held = registry :=
  Registry.ext (KeyedList.insert_of_find?_eq_some h)

/-- Where nothing is held, nothing is dropped. -/
theorem drop_of_registration? (h : registry.registration? name = none) :
    registry.drop name = registry :=
  Registry.ext (KeyedList.erase_of_find?_eq_none h)

theorem put_put_self (registry : Registry) (name : String) (held final : Registration) :
    (registry.put name held).put name final = registry.put name final :=
  Registry.ext (KeyedList.insert_insert_self name held final registry.registrations)

/-- Replacing a registration and holding one under another name can be done in either order. -/
theorem put_comm {other : String} (apart : name ≠ other)
    (present : other ∈ registry.registrations.keys) (held value : Registration) :
    (registry.put other value).put name held = (registry.put name held).put other value :=
  Registry.ext (KeyedList.insert_comm apart present held value)

theorem drop_put_comm {other : String} (apart : name ≠ other) (held : Registration) :
    (registry.put other held).drop name = (registry.drop name).put other held :=
  Registry.ext (KeyedList.erase_insert_comm apart held registry.registrations)

theorem drop_comm (registry : Registry) (name other : String) :
    (registry.drop other).drop name = (registry.drop name).drop other :=
  Registry.ext (KeyedList.erase_comm name other registry.registrations)

theorem list_drop (registry : Registry) (name : String) :
    (registry.drop name).list = registry.list.erase name :=
  KeyedList.keys_filter_erase registry.distinct _

theorem length_list (registry : Registry) : registry.list.length = registry.count := by
  simp [list, count]

end Registry

/-- A registry behind a lock. -/
structure LockedRegistry where
  /-- The registry. -/
  registry : Registry := .empty
  /-- Whether a writer crashed while holding the lock. -/
  poisoned : Bool := false

namespace LockedRegistry

/-- Look at the registry under the lock. -/
def inspect {α : Type} (locked : LockedRegistry) (look : Registry → Except RegistryRefusal α) :
    Except RegistryRefusal α :=
  if locked.poisoned then .error .poisoned else look locked.registry

/-- Make a change under the lock. -/
def change (locked : LockedRegistry) (change : RegistryChange) :
    Except RegistryRefusal LockedRegistry := do
  let registry ← locked.inspect (·.change change)
  return { locked with registry }

/-- The tool under a name, if it can be seen. -/
def get (locked : LockedRegistry) (name : String) : Except RegistryRefusal Tool :=
  locked.inspect (·.get name)

/-- The names of the tools that can be seen. -/
def list (locked : LockedRegistry) : Except RegistryRefusal (List String) :=
  locked.inspect fun registry => .ok registry.list

/-- A writer crashes while holding the lock. -/
def poison (locked : LockedRegistry) : LockedRegistry := { locked with poisoned := true }

end LockedRegistry

end SchemaGate
