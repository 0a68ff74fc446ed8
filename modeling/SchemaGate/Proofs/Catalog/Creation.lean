import SchemaGate.Proofs.Catalog.CycleReport

/-!
# The check for a type that is being created

A type that is being created stands under a placeholder among the stored types, and its given
fields take the place of those stored under that identifier. Identifiers of stored types are not
restricted, so the application may have a type there, whose references the check then does not
look at. It finds every cycle of stored references that keeps clear of the placeholder
(`LinksBeside`), and there are fields for which it overlooks the others.
-/

namespace SchemaGate.Catalog

open Relation (TransGen)

variable {catalog : Catalog} {app : AppId} {aside source target : TypeId} {fields : List TypeField}

/-- The application has a type under the identifier. -/
def Stores (catalog : Catalog) (app : AppId) (id : TypeId) : Prop :=
  ∃ type ∈ catalog.ownedBy app, type.id = id

instance (catalog : Catalog) (app : AppId) (id : TypeId) : Decidable (catalog.Stores app id) :=
  inferInstanceAs (Decidable (∃ type ∈ catalog.ownedBy app, type.id = id))

/-- A stored type of the application refers to one, by its stored fields. -/
def StoredLinks (catalog : Catalog) (app : AppId) (source target : TypeId) : Prop :=
  catalog.Stores app source ∧ catalog.Stores app target ∧ catalog.Refers source target

/-- A stored type refers to one, and neither stands under the given identifier. -/
def LinksBeside (catalog : Catalog) (app : AppId) (aside source target : TypeId) : Prop :=
  catalog.StoredLinks app source target ∧ source ≠ aside ∧ target ≠ aside

/-- Beside the pending type the check goes by the stored references. -/
theorem links_of_linksBeside (h : catalog.LinksBeside app aside source target) :
    catalog.Links app aside fields source target := by
  obtain ⟨⟨here, there, refers⟩, apart, -⟩ := h
  refine ⟨.inl here, .inl there, refers_withFields_iff.mpr ?_⟩
  rw [if_neg apart, mem_referencesOf_iff]
  exact refers

/-- With no fields the pending type refers to nothing. -/
theorem source_ne_of_links_nil (h : catalog.Links app aside [] source target) : source ≠ aside := by
  rintro rfl
  have refers := refers_withFields_iff.mp h.2.2
  rw [if_pos rfl] at refers
  exact List.not_mem_nil refers

/-- What the check goes by if no fields are given is a stored reference, unless it leads to the
pending type. -/
theorem linksBeside_of_links_nil (h : catalog.Links app aside [] source target)
    (apart : target ≠ aside) : catalog.LinksBeside app aside source target := by
  have source_ne := source_ne_of_links_nil h
  obtain ⟨here, there, refers⟩ := h
  have stored := refers_withFields_iff.mp refers
  rw [if_neg source_ne, mem_referencesOf_iff] at stored
  exact ⟨⟨here.resolve_right source_ne, there.resolve_right apart, stored⟩, source_ne, apart⟩

/-- So is a chain of them, since the pending type ends every chain. -/
theorem transGen_linksBeside_of_links_nil (h : TransGen (catalog.Links app aside []) source target)
    (apart : target ≠ aside) : TransGen (catalog.LinksBeside app aside) source target := by
  induction h using TransGen.head_induction_on with
  | single link => exact .single (linksBeside_of_links_nil link apart)
  | head link rest ih =>
    obtain ⟨next, following, -⟩ := TransGen.head'_iff.mp rest
    exact .head (linksBeside_of_links_nil link (source_ne_of_links_nil following)) ih

/-- A check that passes leaves no cycle of stored references beside the pending type. -/
theorem not_transGen_linksBeside {pending : Option TypeId}
    (passes : catalog.auditCycles app pending fields = .ok ()) (id : TypeId) :
    ¬ TransGen (catalog.LinksBeside app (pending.getD placeholder)) id id := by
  intro round
  exact auditCycles_eq_ok_iff_links.mp passes id
    (TransGen.mono (fun _ _ => links_of_linksBeside) _ _ round)

/-- Where there is no such cycle the check passes for no fields. -/
theorem auditCycles_nil_eq_ok {pending : Option TypeId}
    (h : ∀ id, ¬ TransGen (catalog.LinksBeside app (pending.getD placeholder)) id id) :
    catalog.auditCycles app pending [] = .ok () := by
  refine auditCycles_eq_ok_iff_links.mpr fun id round => h id ?_
  obtain ⟨next, link, -⟩ := TransGen.head'_iff.mp round
  exact transGen_linksBeside_of_links_nil round (source_ne_of_links_nil link)

/-- Beside an identifier that is not in use are all stored references. -/
theorem linksBeside_of_not_stores (free : ¬ catalog.Stores app aside)
    (h : catalog.StoredLinks app source target) : catalog.LinksBeside app aside source target :=
  ⟨h, fun same => free (same ▸ h.1), fun same => free (same ▸ h.2.1)⟩

/-- For a type that is being created the check passes over a cycle of stored references, for some
fields, exactly if there are such cycles and each of them leads through a type that is stored
under the placeholder. If the application has no type under it, a check that passes leaves no
cycle among the stored types. -/
theorem creation_overlooks_cycles_iff (catalog : Catalog) (app : AppId) :
    ((∃ fields, catalog.auditCycles app none fields = .ok () ∧
        ∃ id, TransGen (catalog.StoredLinks app) id id) ↔
      (∃ id, TransGen (catalog.StoredLinks app) id id) ∧
        ∀ id, ¬ TransGen (catalog.LinksBeside app placeholder) id id) ∧
    (¬ catalog.Stores app placeholder → ∀ fields, catalog.auditCycles app none fields = .ok () →
      ∀ id, ¬ TransGen (catalog.StoredLinks app) id id) := by
  refine ⟨⟨?_, ?_⟩, fun free fields passes id round => ?_⟩
  · rintro ⟨fields, passes, cycle⟩
    exact ⟨cycle, not_transGen_linksBeside passes⟩
  · rintro ⟨cycle, clear⟩
    exact ⟨[], auditCycles_nil_eq_ok clear, cycle⟩
  · exact not_transGen_linksBeside passes id
      (TransGen.mono (fun _ _ => linksBeside_of_not_stores free) _ _ round)

/-- Books have authors. A note of another application, which refers to notes, is stored under the
placeholder. -/
def bookshop : Catalog where
  types := [⟨⟨1⟩, ⟨7⟩, "Book", ""⟩, ⟨⟨2⟩, ⟨7⟩, "Author", ""⟩, ⟨⟨0⟩, ⟨8⟩, "Note", ""⟩]
  fields := [(TypeField.custom ⟨1⟩ ⟨1⟩ "authors" ⟨2⟩).asArray, TypeField.custom ⟨2⟩ ⟨0⟩ "next" ⟨0⟩]

/-- A loan is of a book. -/
def loanedBook : TypeField := TypeField.custom ⟨3⟩ placeholder "book" ⟨1⟩

theorem creation_overlooks_cycles_iff_bookshop :
    ¬ bookshop.Stores ⟨7⟩ placeholder ∧ bookshop.StoredLinks ⟨7⟩ ⟨1⟩ ⟨2⟩ ∧
    bookshop.auditCycles ⟨7⟩ none [loanedBook] = .ok () ∧
    ∀ id, ¬ TransGen (bookshop.StoredLinks ⟨7⟩) id id := by
  have free : ¬ bookshop.Stores ⟨7⟩ placeholder := by decide
  have refers : bookshop.Refers ⟨1⟩ ⟨2⟩ :=
    ⟨(TypeField.custom ⟨1⟩ ⟨1⟩ "authors" ⟨2⟩).asArray, by decide, rfl, rfl⟩
  have passes : bookshop.auditCycles ⟨7⟩ none [loanedBook] = .ok () := by decide
  refine ⟨free, ⟨by decide, by decide, refers⟩, passes, ?_⟩
  exact (creation_overlooks_cycles_iff bookshop ⟨7⟩).2 free [loanedBook] passes

/-- A folder, stored under the placeholder, holds documents, and a document tells its folder. -/
def folders : Catalog where
  types := [⟨⟨0⟩, ⟨7⟩, "Folder", ""⟩, ⟨⟨1⟩, ⟨7⟩, "Document", ""⟩]
  fields := [(TypeField.custom ⟨1⟩ ⟨0⟩ "documents" ⟨1⟩).asArray,
    TypeField.custom ⟨2⟩ ⟨1⟩ "folder" ⟨0⟩]

/-- A label has a text. -/
def labelText : TypeField :=
  { id := ⟨3⟩, owner := placeholder, name := "text", kind := .string }

/-- Labels may be created, though folders and documents refer to each other, as the check finds
when documents are saved as they are. -/
theorem folders_overlooked :
    folders.auditCycles ⟨7⟩ none [labelText] = .ok () ∧
    TransGen (folders.StoredLinks ⟨7⟩) placeholder placeholder ∧
    folders.auditCycles ⟨7⟩ (some ⟨1⟩) (folders.fieldsOf ⟨1⟩) =
      .error (.cycle [placeholder, ⟨1⟩]) := by
  have holds : folders.StoredLinks ⟨7⟩ placeholder ⟨1⟩ :=
    ⟨by decide, by decide, (TypeField.custom ⟨1⟩ ⟨0⟩ "documents" ⟨1⟩).asArray, by decide, rfl, rfl⟩
  have tells : folders.StoredLinks ⟨7⟩ ⟨1⟩ placeholder :=
    ⟨by decide, by decide, TypeField.custom ⟨2⟩ ⟨1⟩ "folder" ⟨0⟩, by decide, rfl, rfl⟩
  exact ⟨by decide, .head holds (.single tells), by decide⟩

end SchemaGate.Catalog
