import PackedTables.Proofs.World.Manifest

/-!
# What manifests bind

The fingerprint of a world is a function of the identifiers and the layout words of its tables, in
their order.  Two worlds whose manifests match have the same ones, unless two strings that were
digested in the same place collide.
-/

namespace PackedTables

/-- A length is written in sixty-four bits. -/
theorem Fingerprint.framable_iff {part : Bytes} : Framable part ↔ part.length < 2 ^ 64 := by
  have capacity : Bytes.capacity lengthWidth = 2 ^ 64 := by decide
  rw [Framable, capacity]

/-! ## Words of a table -/

/-- What the fingerprint of a table covers. -/
structure TableWords where
  id : TableId
  fieldLayout : Bytes
  keySchema : Bytes
  valueSchema : Bytes
  deriving DecidableEq

def TableWords.parts (words : TableWords) : List Bytes :=
  [words.id.word, words.fieldLayout, words.keySchema, words.valueSchema]

theorem TableWords.parts_injective : Function.Injective parts := by
  intro words other same
  obtain ⟨⟨word⟩, fieldLayout, keySchema, valueSchema⟩ := words
  obtain ⟨⟨word'⟩, fieldLayout', keySchema', valueSchema'⟩ := other
  simp only [parts, List.cons.injEq, and_true] at same
  obtain ⟨rfl, rfl, rfl, rfl⟩ := same
  rfl

def Table.words (table : Table) : TableWords :=
  ⟨table.id, table.layout.fieldLayout, table.layout.keySchema, table.layout.valueSchema⟩

namespace World

variable {first second : World} {instant instant' : Instant}

def words (world : World) : List TableWords := world.tables.map Table.words

/-! ## Equal words -/

theorem map_fingerprintParts (world : World) :
    world.tables.map Table.fingerprintParts = world.words.map TableWords.parts := by
  rw [words, List.map_map]
  rfl

theorem words_eq_iff : first.words = second.words ↔
    first.tables.map Table.fingerprintParts = second.tables.map Table.fingerprintParts := by
  rw [map_fingerprintParts, map_fingerprintParts]
  exact TableWords.parts_injective.list_map.eq_iff.symm

/-- The texts that the fingerprint of a world covers depend on the words alone. -/
theorem fingerprintParts_eq_words (world : World) :
    Manifest.fingerprintParts (world.tables.map (·.manifest)) =
      world.words.map fun words => Utf8.encode (Fingerprint.ofParts words.parts).text := by
  rw [fingerprintParts_eq, words, List.map_map]
  rfl

theorem sameLayout_of_words (same : first.words = second.words) :
    (first.manifest instant).sameLayout (second.manifest instant') = true := by
  apply beq_iff_eq.mpr
  change Fingerprint.ofParts _ = Fingerprint.ofParts _
  rw [fingerprintParts_eq_words, fingerprintParts_eq_words, same]

/-! ## Places of a collision -/

/-- Two worlds collide in their own strings or in those of two tables of one place. -/
theorem collides_iff : Collides first second ↔
    Sha256.Collision
        (Fingerprint.framed (Manifest.fingerprintParts (first.manifest instant).tables))
        (Fingerprint.framed (Manifest.fingerprintParts (second.manifest instant').tables)) ∨
      ∃ (index : Nat) (table other : Table),
        first.tables[index]? = some table ∧ second.tables[index]? = some other ∧
          Sha256.Collision (Fingerprint.framed table.fingerprintParts)
            (Fingerprint.framed other.fingerprintParts) := by
  unfold Collides digested
  simp only [List.zip_cons_cons, List.mem_cons, exists_eq_or_imp]
  refine or_congr Iff.rfl ⟨?_, ?_⟩
  · rintro ⟨pair, member, collision⟩
    obtain ⟨index, here⟩ := List.mem_iff_getElem?.mp member
    obtain ⟨left, right⟩ := List.getElem?_zip_eq_some.mp here
    rw [List.getElem?_map] at left right
    obtain ⟨table, inFirst, text⟩ := Option.map_eq_some_iff.mp left
    obtain ⟨other, inSecond, text'⟩ := Option.map_eq_some_iff.mp right
    rw [← text, ← text'] at collision
    exact ⟨index, table, other, inFirst, inSecond, collision⟩
  · rintro ⟨index, table, other, inFirst, inSecond, collision⟩
    refine ⟨(_, _), List.mem_iff_getElem?.mpr ⟨index, List.getElem?_zip_eq_some.mpr ⟨?_, ?_⟩⟩,
      collision⟩
    · rw [List.getElem?_map, inFirst]
      rfl
    · rw [List.getElem?_map, inSecond]
      rfl

/-! ## Matches -/

/--
Worlds with the same words match.  Worlds that match have the same words, unless the strings of the
worlds or those of two tables of one place collide; and so for any two lists of parts.
-/
theorem sameLayout_binds (reachable : first.Reachable) (reachable' : second.Reachable)
    (instant instant' : Instant) :
    (first.words = second.words →
        (first.manifest instant).sameLayout (second.manifest instant') = true) ∧
      ((first.manifest instant).sameLayout (second.manifest instant') = true →
        first.words = second.words ∨
          Sha256.Collision
            (Fingerprint.framed (Manifest.fingerprintParts (first.manifest instant).tables))
            (Fingerprint.framed (Manifest.fingerprintParts (second.manifest instant').tables)) ∨
          ∃ (index : Nat) (table other : Table),
            first.tables[index]? = some table ∧ second.tables[index]? = some other ∧
              Sha256.Collision (Fingerprint.framed table.fingerprintParts)
                (Fingerprint.framed other.fingerprintParts)) ∧
      ∀ parts others : List Bytes, (∀ part ∈ parts, part.length < 2 ^ 64) →
        (∀ part ∈ others, part.length < 2 ^ 64) →
        Fingerprint.ofParts parts = Fingerprint.ofParts others →
        parts = others ∨
          Sha256.Collision (Fingerprint.framed parts) (Fingerprint.framed others) := by
  refine ⟨sameLayout_of_words, fun same => ?_, fun parts others short small same => ?_⟩
  · rcases parts_eq_of_sameLayout reachable reachable' same with equal | collision
    · exact .inl (words_eq_iff.mpr equal)
    · exact .inr (collides_iff.mp collision)
  · exact Fingerprint.ofParts_eq
      (fun part member => Fingerprint.framable_iff.mpr (short part member))
      (fun part member => Fingerprint.framable_iff.mpr (small part member)) same

/-- Worlds that differ in a name alone match, and a boundary that moves is noticed. -/
theorem sameLayout_binds_renamed :
    ((OneByte.world "a").manifest OneByte.instant).sameLayout
        ((OneByte.world "b").manifest OneByte.instant) = true ∧
      (OneByte.world "a").words = (OneByte.world "b").words ∧
      Fingerprint.ofParts [[0x61, 0x62], [0x63]] ≠ Fingerprint.ofParts [[0x61], [0x62, 0x63]] := by
  obtain ⟨matching, words, parts⟩ := sameLayout_binds OneByte.reachable_a OneByte.reachable_b
    OneByte.instant OneByte.instant
  refine ⟨matching rfl, ?_, fun same => ?_⟩
  · rcases words (OneByte.sameLayout "a" "b") with equal | collision
    · exact equal
    · exact absurd (collides_iff.mpr collision) (not_collides_of_apart OneByte.apart)
  · rcases parts _ _ (by decide) (by decide) same with equal | ⟨-, digests⟩
    · exact absurd equal (by decide)
    · exact absurd digests (by decide +kernel)

end World

end PackedTables
