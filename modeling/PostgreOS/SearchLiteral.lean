/-
Searching for a literal with `LIKE`.

The client and `pgos.search_literal` escape the special characters of a literal and put it
between two wildcards. The backslash is replaced first, so no replacement meets an escape of
another one, and the pattern accepts the texts that contain the literal.
-/

import PostgreOS.CandidateText
import PostgreOS.Find

namespace PostgreOS

open Library.LikePattern Library.Outcome

/-- `'%' || replace(replace(replace(needle, '\', '\\'), '%', '\%'), '_', '\_') || '%'`. -/
def needlePattern (needle : Text) : Text :=
  '%' :: (replaceChar '_' ['\\', '_'] (replaceChar '%' ['\\', '%']
    (replaceChar '\\' ['\\', '\\'] needle)) ++ ['%'])

/-- `text_content LIKE ...`, or a block of the object does. -/
def Database.hasNeedle (db : Database) (needle : Text) (entry : ZoneEntry) : Bool :=
  (entry.textContent.any fun content => like (needlePattern needle) content) ||
    db.allContentBlocks.any fun block =>
      entry.contentObject = some block.objectId && like (needlePattern needle) block.body

/-- A row of `pgos.search_literal`. -/
structure LiteralRow where
  path : Text
  size : Nat
  generation : Nat
  deriving DecidableEq, Repr

/-- The files of a selected zone with the needle. -/
def Database.literalEntries (db : Database) (volume : Uuid) (needle : Text) (selected : Zone × Text) :
    List ZoneEntry :=
  db.zoneEntries.filter fun entry =>
    entry.volumeId = volume ∧ entry.zoneId = selected.1.id ∧ entry.kind = .file ∧
      db.hasNeedle needle entry = true ∧ inRelativeRoot selected.2 entry = true

/-- `ORDER BY selected.path COLLATE "C", entry.relative_path`. -/
def inZoneOrder (first second : Text × ZoneEntry) : Bool :=
  if first.1 ≠ second.1 then collateC first.1 second.1
  else collateC first.2.relativePath second.2.relativePath

/-- `pgos.search_literal`. -/
def Database.searchLiteral (db : Database) (volume : Uuid) (targetPath needle : Text) :
    Result (List LiteralRow) := do
  let cleanPath ← assertPath targetPath
  let location ← strict (db.locateZone volume cleanPath)
  let found := (db.selectedZones volume cleanPath location).flatMap fun selected =>
    (db.literalEntries volume needle selected).map fun entry => (selected.1.path, entry)
  .ok ((found.insertionSort fun first second => inZoneOrder first second).map fun row =>
    { path := absolutePath row.1 row.2.relativePath
      size := row.2.size
      generation := row.2.metadata.generation })

/-! ### Both patterns -/

/-- As a pattern of `LIKE` it has no unfinished escape and accepts the texts with the needle. -/
structure AcceptsContaining (needle pattern : Text) : Prop where
  finished : unfinished pattern = false
  accepts : ∀ text, like pattern text = true ↔ needle <:+: text

theorem acceptsContaining_literalPattern (literal : Text) :
    AcceptsContaining literal (literalPattern literal) where
  finished := by
    rw [literalPattern_eq, unfinished_literal (by decide), unfinished_escaped_append]
    rfl
  accepts := like_literalPattern literal

/-- The patterns of `literal_patterns` accept the texts that contain their literals, and the
pattern of `search_literal` those that contain its needle. -/
theorem literalPatterns_accept (literals : List Text) (needle : Text) :
    (∃ patterns, literalPatterns (some literals) = some patterns ∧
      List.Forall₂ AcceptsContaining literals patterns) ∧
    AcceptsContaining needle (needlePattern needle) := by
  refine ⟨⟨literals.map literalPattern, rfl, ?_⟩, acceptsContaining_literalPattern needle⟩
  rw [List.forall₂_map_right_iff, List.forall₂_same]
  exact fun literal _ => acceptsContaining_literalPattern literal

/-- All special characters, at the ends and next to each other. -/
example : like (needlePattern "\\%_\n%".toList) "a\\%_\n%b".toList = true ∧
    like (needlePattern "\\%_\n%".toList) "a\\%x\n%b".toList = false := by
  decide +kernel

end PostgreOS
