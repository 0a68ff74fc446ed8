import SchemaGate.CommandLine.Run
import SchemaGate.Proofs.Catalog.Declaration
import SchemaGate.Proofs.Catalog.DocumentDepth

/-!
# Compiled schemas as files

A schema that is compiled, printed and read again as a file checks values as the schema itself
would. The order of properties is lost on the way, which matters neither to acceptance nor to
pruning. The bound on nested references keeps the printed document so flat that it can be read,
and no text in it is taken for a document of its own unless a field has the name that announces
one.
-/

namespace SchemaGate

open Json (Draft)

/-- What an object holds is found in its normal form, in normal form. -/
theorem Json.get?_sorted {members : List (String × Json)}
    (hn : (KeyedList.keys members).Nodup) (key : String) :
    (Json.object members).sorted.get? key = (KeyedList.find? key members).map Json.sorted := by
  rw [Json.sorted, Json.get?, Json.sortedMembers_eq_map, KeyedList.find?_sorted,
    KeyedList.find?_map]
  rw [KeyedList.keys_map]
  exact hn

/-- Pruning leaves a value in normal form. -/
theorem isSorted_prune {ι : Type} {node : Node ι} (hw : node.WellFormed) {value : Json}
    (hs : value.IsSorted) : (prune (some node) value).IsSorted := by
  cases kept : node.prune? value with
  | none =>
    rw [prune, kept]
    exact .null
  | some result =>
    rw [prune, kept]
    exact Node.isSorted_of_prune? hw hs kept

namespace CommandLine

/-- A run succeeds if its command has a document, which it prints in normal form. -/
theorem run_eq_success_iff {files : Files} {arguments : List String} {command : Command}
    (asked : command? arguments = some command) {output : String} :
    run files arguments = .success output ↔
      ∃ document, command.document files = .ok document ∧
        document.sorted.pretty ++ "\n" = output := by
  rw [run, asked]
  dsimp only
  cases command.document files with
  | error failure => simp
  | ok document => simp

/-- A run fails where its command has no document. -/
theorem run_of_document_eq_error {files : Files} {arguments : List String} {command : Command}
    (asked : command? arguments = some command) {failure : Failure}
    (failed : command.document files = .error failure) :
    run files arguments = .failure failure := by
  rw [run, asked]
  dsimp only
  rw [failed]

/-- A compilation has the document of the schema of its type. -/
theorem document_compile_eq_ok_iff {files : Files} {graph : String} {type : Int64}
    {document : Json} : (Command.compile graph type none).document files = .ok document ↔
      ∃ catalog schema, readCatalog files graph = .ok catalog ∧
        catalog.schemaOf defaultLimit ⟨type⟩ = .ok schema ∧ schema.toDocument = document := by
  rw [Command.document]
  cases readCatalog files graph with
  | error failure =>
    refine iff_of_false (fun h => by cases h) ?_
    rintro ⟨_, _, read, -⟩
    cases read
  | ok catalog =>
    simp only [Option.getD_none, Except.ok.injEq, exists_and_left, exists_eq_left']
    cases unfolded : catalog.schemaOf defaultLimit ⟨type⟩ with
    | error error => simp [bind, Except.bind, unfolded]
    | ok schema => simp [bind, Except.bind, unfolded, pure, Except.pure]

/-- The two parts of a verdict that are always there, in its normal form. -/
theorem get?_sorted_verdict {schema : Schema} (hw : schema.WellFormed) {value : Json}
    (hs : value.IsSorted) :
    (verdict schema value).sorted.get? "satisfies" =
        some (.bool (admits (some schema.numbered) value)) ∧
      (verdict schema value).sorted.get? "filtered" = some (prune (some schema) value) := by
  have kept := Json.sorted_of_isSorted _ (isSorted_prune hw hs)
  unfold verdict
  dsimp only
  cases objection : (Checker.run {} schema.numbered value).violation with
  | none =>
    constructor
    · rw [Json.get?_sorted (by simp [KeyedList.keys])]
      rfl
    · rw [Json.get?_sorted (by simp [KeyedList.keys])]
      simp [KeyedList.find?, kept]
  | some violation =>
    constructor
    · rw [Json.get?_sorted (by simp [KeyedList.keys])]
      rfl
    · rw [Json.get?_sorted (by simp [KeyedList.keys])]
      simp [KeyedList.find?, kept]

/-- A check reads the schema, then the value, and tells its verdict. -/
theorem document_check {files : Files} {schemaPath : String} {document : Json} {schema : Schema}
    (held : readDocument files schemaPath = .ok document)
    (read : Schema.ofJson document = .ok schema) (valuePath : String) :
    (Command.check schemaPath valuePath).document files =
      verdict schema <$> readDocument files valuePath := by
  rw [Command.document, held]
  simp only [bind, Except.bind, read]
  cases readDocument files valuePath <;> rfl

/-- A file holds a record if it holds a document that is read as the record. -/
theorem readRecord_eq_ok {α : Type} {files : Files} {path : String} {reader : Reader α}
    {value : Json} {record : α} (held : readDocument files path = .ok value)
    (read : reader.ofJson value = .ok record) (context : String) :
    readRecord files path context reader = .ok record := by
  rw [readRecord, held]
  simp only [bind, Except.bind, read]
  rfl

/-- A document that is read from a file is in normal form. -/
theorem isSorted_of_readDocument {files : Files} {path : String} {value : Json}
    (h : readDocument files path = .ok value) : value.IsSorted := by
  unfold readDocument at h
  split at h
  · cases h
  · split at h
    · cases h
    · next read => exact Except.ok.inj h ▸ Json.isSorted_of_ofText? read

end CommandLine

open CommandLine

/-- What a compilation with the usual bound prints is the document of the schema of its type,
which nests far less than reading allows, and so is read back unless a field has the name that
announces an embedded document. If a document that nests no deeper than allowed is read back, a
check with it as its schema file fails only over the value file, and otherwise reports for the
value what the schema itself says: whether it admits the value, and what it keeps of it. -/
theorem compiled_documents_recheck {files : Files} {arguments : List String} {graph : String}
    {type : Int64} {output : String}
    (asked : command? arguments = some (.compile graph type none))
    (printed : run files arguments = .success output) :
    ∃ catalog schema, readCatalog files graph = .ok catalog ∧
      catalog.schemaOf defaultLimit ⟨type⟩ = .ok schema ∧
      output = schema.toJson.pretty ++ "\n" ∧
      ((Draft.ofJson schema.toJson).nesting ≤ 3 * defaultLimit + 2 ∧
        3 * defaultLimit + 2 ≤ Json.maxNesting) ∧
      ((∀ field ∈ catalog.fields, field.name ≠ Json.embeddingKey) →
        Json.ofText? output = some schema.toJson) ∧
      (((Draft.ofJson schema.toJson).nesting ≤ Json.maxNesting →
          Json.ofText? output = some schema.toJson) →
        ∀ (others : Files) (request : List String) (document value : String),
          command? request = some (.check document value) → others document = some output →
          (∀ failure, readDocument others value = .error failure →
            run others request = .failure failure) ∧
          (∀ content, readDocument others value = .ok content →
            ∃ report : Json, run others request = .success (report.pretty ++ "\n") ∧
              report.get? "satisfies" = some (.bool (admits (some schema.numbered) content)) ∧
              report.get? "filtered" = some (prune (some schema) content))) := by
  obtain ⟨document, compiled, rfl⟩ := (run_eq_success_iff asked).mp printed
  obtain ⟨catalog, schema, held, unfolded, rfl⟩ := document_compile_eq_ok_iff.mp compiled
  have wellFormed := (Catalog.wellFormed_and_closed_of_unfold unfolded).1
  have shallow : (Draft.ofJson schema.toJson).nesting ≤ 3 * defaultLimit + 2 :=
    Catalog.nesting_of_unfold unfolded
  have room : 3 * defaultLimit + 2 ≤ Json.maxNesting := by decide
  refine ⟨catalog, schema, held, unfolded, rfl, ⟨shallow, room⟩, fun plain => ?_, ?_⟩
  · have embedsNothing := Catalog.embedsNothing_of_unfold plain unfolded
    exact (Node.isPlain_toJson embedsNothing).ofText?_pretty (Nat.le_trans shallow room)
  · intro printable others request schemaPath valuePath requested stored
    have readBack := printable (Nat.le_trans shallow room)
    obtain ⟨again, read, same⟩ := Node.exists_ofJson_toJson wellFormed
    have file : readDocument others schemaPath = .ok schema.toJson := by
      rw [readDocument, stored]
      dsimp only
      rw [readBack]
    have told := document_check file read valuePath
    refine ⟨fun failure unread => ?_, fun content given => ?_⟩
    · rw [unread] at told
      exact run_of_document_eq_error requested told
    rw [given] at told
    have wellFormed' := Schema.wellFormed_of_ofJson read
    have parts := get?_sorted_verdict wellFormed' (isSorted_of_readDocument given)
    have satisfies : admits (some again.numbered) content =
        admits (some schema.numbered) content := by
      rw [Bool.eq_iff_iff, admits_iff again.coherent_numbered, admits_iff schema.coherent_numbered,
        Node.accepts_numbered, Node.accepts_numbered]
      exact (same content).1
    have filtered : prune (some again) content = prune (some schema) content := by
      rw [prune, prune, (same content).2]
    exact ⟨(verdict again content).sorted, (run_eq_success_iff requested).mpr ⟨_, told, rfl⟩,
      satisfies ▸ parts.1, filtered ▸ parts.2⟩

/-- Stored records of kiosks, which sell lists of named items. -/
def kioskText : String :=
  "\x7b\"types\":[[1,7,\"Kiosk\"],[2,7,\"Item\"]],\"fields\":" ++
  "[[1,1,\"items\",\"custom\",2,true],[2,2,\"name\",\"string\",null,false,true]]\x7d"

/-- The value that the text spells. -/
def kioskDocument : Json := .object [
  ("fields", .array [
    .array [.ofInt 1, .ofInt 1, .string "items", .string "custom", .ofInt 2, .bool true],
    .array [.ofInt 2, .ofInt 2, .string "name", .string "string", .null, .bool false,
      .bool true]]),
  ("types", .array [
    .array [.ofInt 1, .ofInt 7, .string "Kiosk"], .array [.ofInt 2, .ofInt 7, .string "Item"]])]

/-- The records that the value describes. -/
def kioskRecords : StoredRecords where
  types := [{ id := ⟨1⟩, app := ⟨7⟩, name := "Kiosk" }, { id := ⟨2⟩, app := ⟨7⟩, name := "Item" }]
  fields := [
    { id := ⟨1⟩, owner := ⟨1⟩, name := "items", kind := .custom, reference := some ⟨2⟩,
      isArray := true },
    { id := ⟨2⟩, owner := ⟨2⟩, name := "name", kind := .string, required := true }]

/-- The schema of a kiosk. -/
def kioskSchema : Schema where
  label := ()
  kind := .object
  properties := [("items", Node.arrayOf {
    label := (), kind := .object, properties := [("name", Node.bare .string)],
    required := .ofList ["name"] })]

/-- A kiosk whose item has a price. -/
def kioskValueText : String :=
  "\x7b\"items\":[\x7b\"name\":\"pen\",\"price\":null\x7d],\"open\":true\x7d"

/-- The value that this text spells. -/
def kioskValue : Json := .object [
  ("items", .array [.object [("name", .string "pen"), ("price", .null)]]), ("open", .bool true)]

/-- The file from which a kiosk is compiled. -/
def kioskFiles : CommandLine.Files := fun path => if path = "g" then some kioskText else none

/-- What is printed for a kiosk. -/
def kioskOutput : String := kioskSchema.toJson.pretty ++ "\n"

/-- The files of a check against what was printed. -/
def kioskCheckFiles : CommandLine.Files := fun path =>
  if path = "s" then some kioskOutput else if path = "v" then some kioskValueText else none

theorem readCatalog_kioskFiles :
    readCatalog kioskFiles "g" = .ok (Catalog.ofRecords kioskRecords) := by
  have document : readDocument kioskFiles "g" = .ok kioskDocument := by
    have spelled : Json.ofText? kioskText = some kioskDocument := by decide +kernel
    rw [readDocument, kioskFiles, if_pos rfl]
    dsimp only
    rw [spelled]
  have records : StoredRecords.reader.ofJson kioskDocument = .ok kioskRecords := by rfl
  rw [readCatalog, readRecord_eq_ok document records]
  rfl

theorem compiled_documents_recheck_kiosk :
    command? ["compile", "-gg", "-t1"] = some (.compile "g" 1 none) ∧
    run kioskFiles ["compile", "-gg", "-t1"] = .success kioskOutput ∧
    ∃ report : Json,
      run kioskCheckFiles ["check", "-ss", "-vv"] = .success (report.pretty ++ "\n") ∧
      report.get? "satisfies" = some (.bool true) ∧
      report.get? "filtered" =
        some (.object [("items", .array [.object [("name", .string "pen")]])]) := by
  have asked : command? ["compile", "-gg", "-t1"] = some (.compile "g" 1 none) := by
    decide +kernel
  have requested : command? ["check", "-ss", "-vv"] = some (.check "s" "v") := by
    decide +kernel
  have compiled :
      (Catalog.ofRecords kioskRecords).schemaOf defaultLimit ⟨1⟩ = .ok kioskSchema := by
    rfl
  have printed : run kioskFiles ["compile", "-gg", "-t1"] = .success kioskOutput :=
    (run_eq_success_iff asked).mpr ⟨_, document_compile_eq_ok_iff.mpr
      ⟨_, _, readCatalog_kioskFiles, compiled, rfl⟩, rfl⟩
  have value : readDocument kioskCheckFiles "v" = .ok kioskValue := by
    have spelled : Json.ofText? kioskValueText = some kioskValue := by decide +kernel
    rw [readDocument, kioskCheckFiles, if_neg (by decide), if_pos rfl]
    dsimp only
    rw [spelled]
  obtain ⟨catalog, schema, held, unfolded, -, -, plain, recheck⟩ :=
    compiled_documents_recheck asked printed
  obtain rfl : Catalog.ofRecords kioskRecords = catalog :=
    Except.ok.inj (readCatalog_kioskFiles.symm.trans held)
  obtain rfl : kioskSchema = schema := Except.ok.inj (compiled.symm.trans unfolded)
  have readBack := plain (by decide)
  obtain ⟨report, told, satisfies, filtered⟩ :=
    (recheck (fun _ => readBack) kioskCheckFiles _ "s" "v" requested rfl).2 kioskValue value
  refine ⟨asked, printed, report, told, ?_, ?_⟩
  · rw [satisfies]
    decide
  · rw [filtered]
    decide

end SchemaGate
