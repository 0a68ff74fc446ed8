import SchemaGate.Text.Quoted

/-!
# Quoted text is read back

Each character is written as itself or as one escape, and reading takes exactly these
characters back as one piece. Only control characters are written by their code, and none of
these codes is half a character, so the pieces of a written text join to the text.
-/

namespace SchemaGate.Text

/-- The characters with an escape of one letter. -/
def shortlyEscaped : List Char := ['"', '\\', '\x08', '\t', '\n', '\x0c', '\r']

/-- The piece as which a written character is read. -/
def pieceOf (c : Char) : Piece :=
  if c.toNat < 32 ∧ c ∉ shortlyEscaped then .unit c.toNat else .char c

/-- A character is written by an escape of one letter, by its code or as itself. -/
theorem quoteChar_cases (c : Char) :
    (∃ e, e ≠ 'u' ∧ shortEscape? e = some c ∧ quoteChar c = ['\\', e] ∧ pieceOf c = .char c) ∨
    (c.toNat < 32 ∧ pieceOf c = .unit c.toNat ∧ quoteChar c =
      ['\\', 'u', '0', '0', hexDigit (c.toNat / 16), hexDigit (c.toNat % 16)]) ∨
    (32 ≤ c.toNat ∧ c ≠ '"' ∧ c ≠ '\\' ∧ quoteChar c = [c] ∧ pieceOf c = .char c) := by
  by_cases short : c ∈ shortlyEscaped
  · left
    simp only [shortlyEscaped, List.mem_cons, List.not_mem_nil, or_false] at short
    rcases short with rfl | rfl | rfl | rfl | rfl | rfl | rfl
    · exact ⟨'"', by decide, rfl, rfl, rfl⟩
    · exact ⟨'\\', by decide, rfl, rfl, rfl⟩
    · exact ⟨'b', by decide, rfl, rfl, rfl⟩
    · exact ⟨'t', by decide, rfl, rfl, rfl⟩
    · exact ⟨'n', by decide, rfl, rfl, rfl⟩
    · exact ⟨'f', by decide, rfl, rfl, rfl⟩
    · exact ⟨'r', by decide, rfl, rfl, rfl⟩
  · right
    have others := short
    simp only [shortlyEscaped, List.mem_cons, List.not_mem_nil, or_false, not_or] at others
    by_cases low : c.toNat < 32
    · exact .inl ⟨low, if_pos ⟨low, short⟩, by simp [quoteChar, others, low]⟩
    · refine .inr ⟨Nat.le_of_not_lt low, others.1, others.2.1, ?_, if_neg fun h => low h.1⟩
      simp [quoteChar, others, low]

/-- The code of a control character is read back from its two hexadecimal digits. -/
theorem unit?_hexDigits {n : Nat} (h : n < 32) :
    unit? '0' '0' (hexDigit (n / 16)) (hexDigit (n % 16)) = some n := by
  have all : ∀ n < 32, unit? '0' '0' (hexDigit (n / 16)) (hexDigit (n % 16)) = some n := by
    decide
  exact all n h

/-- A character written as itself is read as itself. -/
theorem scan_plain {c : Char} (mark : c ≠ '"') (slash : c ≠ '\\') (visible : 32 ≤ c.toNat)
    (rest : List Char) :
    scan (c :: rest) = (scan rest).map fun scanned => (.char c :: scanned.1, scanned.2) := by
  rw [scan]
  · rw [if_neg (by simp [slash]; omega)]
    cases scan rest <;> rfl
  all_goals simp [mark, slash]

/-- A character written after a backslash is read as what the escape stands for. -/
theorem scan_shortEscape {e c : Char} (short : e ≠ 'u') (h : shortEscape? e = some c)
    (rest : List Char) :
    scan ('\\' :: e :: rest) =
      (scan rest).map fun scanned => (.char c :: scanned.1, scanned.2) := by
  rw [scan]
  · rw [h]
    cases scan rest <;> rfl
  · intro _ _ _ _ _ hu
    exact absurd hu short

/-- A written character is read as one piece. -/
theorem scan_quoteChar (c : Char) (rest : List Char) :
    scan (quoteChar c ++ rest) =
      (scan rest).map fun scanned => (pieceOf c :: scanned.1, scanned.2) := by
  rcases quoteChar_cases c with ⟨e, short, stands, written, piece⟩ | ⟨low, piece, written⟩ |
    ⟨visible, mark, slash, written, piece⟩
  · rw [written, piece]
    exact scan_shortEscape short stands rest
  · rw [written, piece]
    simp only [List.cons_append, List.nil_append, scan, unit?_hexDigits low]
    cases scan rest <;> rfl
  · rw [written, piece]
    exact scan_plain mark slash visible rest

/-- A written text is read up to its closing mark. -/
theorem scan_quoted (text rest : List Char) :
    scan (text.flatMap quoteChar ++ '"' :: rest) = some (text.map pieceOf, rest) := by
  induction text with
  | nil => rw [List.flatMap_nil, List.nil_append, scan, List.map_nil]
  | cons c text ih =>
    rw [List.flatMap_cons, List.append_assoc, scan_quoteChar, ih]
    rfl

/-- A piece adds its character to what the others join to. -/
theorem join_pieceOf (c : Char) (pieces : List Piece) :
    join (pieceOf c :: pieces) = (join pieces).map (c :: ·) := by
  unfold pieceOf
  split
  · next h =>
    have whole : isLeading c.toNat = false ∧ isTrailing c.toNat = false := by
      simp only [isLeading, isTrailing, Bool.and_eq_false_iff, decide_eq_false_iff_not]
      omega
    rw [join.eq_def]
    simp only [whole.1, whole.2, Char.ofNat_toNat]
    rfl
  · rw [join]

/-- The pieces of a written text join to the text. -/
theorem join_pieces (text : List Char) : join (text.map pieceOf) = some text := by
  induction text with
  | nil => rfl
  | cons c text ih => rw [List.map_cons, join_pieceOf, ih, Option.map_some]

end SchemaGate.Text
