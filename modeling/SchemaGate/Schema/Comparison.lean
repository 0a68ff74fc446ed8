import SchemaGate.Schema.Checker

/-!
# Comparing schemas and values

Relations that decide how much of a schema or of a value matters. Schemas that agree
differ only in what no check looks at: labels, descriptions, orders and members that a
kind ignores. A schema relaxes another one if it says less about every part; agreeing
schemas relax each other. Values are alike to a schema if they differ only where the
schema does not look.
-/

namespace SchemaGate.Node

variable {ι κ μ : Type}

/-- The schemas say the same about every value. -/
inductive Agrees : Node ι → Node κ → Prop where
  /-- Nodes of one kind whose parts that matter agree, whatever their order. -/
  | intro {node : Node ι} {other : Node κ} :
      node.kind = other.kind →
      (node.kind = .object → ∀ name, name ∈ node.required ↔ name ∈ other.required) →
      (node.kind = .object → ∀ name, KeyedList.find? name node.properties = none ↔
        KeyedList.find? name other.properties = none) →
      (node.kind = .object → ∀ name child twin,
        KeyedList.find? name node.properties = some child →
        KeyedList.find? name other.properties = some twin → Agrees child twin) →
      (node.kind = .array → (node.items = none ↔ other.items = none)) →
      (node.kind = .array → ∀ child twin, node.items = some child →
        other.items = some twin → Agrees child twin) →
      Agrees node other

/-- The first schema says at most what the second does. -/
inductive Relaxes : Node ι → Node κ → Prop where
  /-- Nodes of one kind; what the first requires or declares the second does too. -/
  | intro {node : Node ι} {other : Node κ} :
      node.kind = other.kind →
      (node.kind = .object → ∀ name ∈ node.required, name ∈ other.required) →
      (node.kind = .object → ∀ name, KeyedList.find? name other.properties = none →
        KeyedList.find? name node.properties = none) →
      (node.kind = .object → ∀ name child strict,
        KeyedList.find? name node.properties = some child →
        KeyedList.find? name other.properties = some strict → Relaxes child strict) →
      (node.kind = .array → other.items = none → node.items = none) →
      (node.kind = .array → ∀ child strict, node.items = some child →
        other.items = some strict → Relaxes child strict) →
      Relaxes node other

theorem Agrees.symm {node : Node ι} {other : Node κ} (h : Agrees node other) :
    Agrees other node := by
  induction h with
  | intro hk hr hn _ hi _ ihp ihi =>
    refine .intro hk.symm (fun ho name => (hr (hk.trans ho) name).symm)
      (fun ho name => (hn (hk.trans ho) name).symm)
      (fun ho name child twin hc ht => ihp (hk.trans ho) name twin child ht hc)
      (fun ha => (hi (hk.trans ha)).symm)
      (fun ha child twin hc ht => ihi (hk.trans ha) twin child ht hc)

theorem Agrees.relaxes {node : Node ι} {other : Node κ} (h : Agrees node other) :
    Relaxes node other := by
  induction h with
  | intro hk hr hn _ hi _ ihp ihi =>
    exact .intro hk (fun ho name => (hr ho name).mp) (fun ho name => (hn ho name).mpr) ihp
      (fun ha => (hi ha).mpr) ihi

theorem Relaxes.trans {node : Node ι} {other : Node κ} {third : Node μ}
    (first : Relaxes node other) (second : Relaxes other third) : Relaxes node third := by
  induction first generalizing third with
  | intro hk hr hn _ hi _ ihp ihi =>
    obtain ⟨hk', hr', hn', hp', hi', he'⟩ := second
    refine .intro (hk.trans hk') (fun ho name hm => hr' (hk ▸ ho) name (hr ho name hm))
      (fun ho name hm => hn ho name (hn' (hk ▸ ho) name hm)) (fun ho name child strict hc hs => ?_)
      (fun ha hm => hi ha (hi' (hk ▸ ha) hm)) (fun ha child strict hc hs => ?_)
    · cases hm : KeyedList.find? name _ with
      | none => rw [hn ho name hm] at hc; cases hc
      | some middle => exact ihp ho name child middle hc hm (hp' (hk ▸ ho) name middle strict hm hs)
    · cases hm : Node.items _ with
      | none => rw [hi ha hm] at hc; cases hc
      | some middle => exact ihi ha child middle hc hm (he' (hk ▸ ha) middle strict hm hs)

/-- The values differ only where the schema does not look. -/
inductive Alike : Node ι → Json → Json → Prop where
  /-- Values of one kind that lack the same required names and whose declared parts are
  alike. -/
  | intro {node : Node ι} {value other : Json} :
      value.kind = other.kind →
      (node.kind = .object → ∀ members others, value = .object members →
        other = .object others →
        ∀ name ∈ node.required, isAbsent members name = isAbsent others name) →
      (node.kind = .object → ∀ members others, value = .object members →
        other = .object others → ∀ property ∈ node.properties,
        (KeyedList.find? property.1 members = none ↔
          KeyedList.find? property.1 others = none)) →
      (node.kind = .object → ∀ members others, value = .object members →
        other = .object others → ∀ property ∈ node.properties, ∀ field twin,
        KeyedList.find? property.1 members = some field →
        KeyedList.find? property.1 others = some twin → Alike property.2 field twin) →
      (node.kind = .array → ∀ elements others, value = .array elements →
        other = .array others → node.items ≠ none → elements.length = others.length) →
      (node.kind = .array → ∀ elements others, value = .array elements →
        other = .array others → ∀ child, node.items = some child →
        ∀ (position : Nat) (element twin : Json), elements[position]? = some element →
        others[position]? = some twin → Alike child element twin) →
      Alike node value other

end SchemaGate.Node
