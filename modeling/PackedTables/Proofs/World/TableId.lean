import PackedTables.Proofs.Text.Ascii
import PackedTables.Proofs.World.Catalog

/-!
# Telling table identifiers apart

The parts of an identifier stand at fixed places, so none of them runs into the next.  Of a
namespace the zero bytes at its end are lost, and of a name also all that follows its sixteenth
byte.  Names that are identifiers have no zero bytes, so they clash only when they begin alike.
-/

namespace PackedTables

namespace TableId

/-- What an identifier keeps of a name. -/
def keptName (name : String) : Bytes := (Utf8.encode name).take nameWidth

variable {worldNamespace otherNamespace name otherName : Bytes} {offchain otherOffchain : Bool}

theorem length_mark (offchain : Bool) : (mark offchain).length = markWidth := by
  cases offchain <;> rfl

theorem mark_injective (same : mark offchain = mark otherOffchain) : offchain = otherOffchain := by
  revert same
  cases offchain <;> cases otherOffchain <;> decide

theorem length_padRight {width : Nat} {bytes : Bytes} (fits : bytes.length ≤ width) :
    (Bytes.padRight width bytes).length = width := by
  rw [Bytes.padRight, List.length_append, List.length_replicate]
  omega

theorem length_take_nameWidth (name : Bytes) : (name.take nameWidth).length ≤ nameWidth := by
  rw [List.length_take]
  exact Nat.min_le_left _ _

/-- The three parts of a word can be told from it, up to the zero bytes at their ends. -/
theorem wordOf_eq_iff (fits : worldNamespace.length ≤ namespaceWidth)
    (fits' : otherNamespace.length ≤ namespaceWidth) :
    wordOf worldNamespace name offchain = wordOf otherNamespace otherName otherOffchain ↔
      offchain = otherOffchain ∧
        Bytes.trimRight worldNamespace = Bytes.trimRight otherNamespace ∧
        Bytes.trimRight (name.take nameWidth) = Bytes.trimRight (otherName.take nameWidth) := by
  have namespaces := Bytes.padRight_eq_iff fits fits'
  have names := Bytes.padRight_eq_iff (length_take_nameWidth name) (length_take_nameWidth otherName)
  rw [← namespaces, ← names]
  constructor
  · intro same
    have fronts : (mark offchain ++ Bytes.padRight namespaceWidth worldNamespace).length =
        (mark otherOffchain ++ Bytes.padRight namespaceWidth otherNamespace).length := by
      rw [List.length_append, List.length_append, length_mark, length_mark, length_padRight fits,
        length_padRight fits']
    obtain ⟨front, back⟩ := List.append_inj same fronts
    have marks : (mark offchain).length = (mark otherOffchain).length := by
      rw [length_mark, length_mark]
    obtain ⟨first, second⟩ := List.append_inj front marks
    exact ⟨mark_injective first, second, back⟩
  · rintro ⟨rfl, second, back⟩
    rw [wordOf, wordOf, second, back]

/-! ## Parts -/

theorem markPart_wordOf (worldNamespace name : Bytes) (offchain : Bool) :
    markPart ⟨wordOf worldNamespace name offchain⟩ = mark offchain := by
  rw [markPart, wordOf, List.append_assoc, List.take_left' (length_mark offchain)]

theorem isOffchain_wordOf (worldNamespace name : Bytes) (offchain : Bool) :
    isOffchain ⟨wordOf worldNamespace name offchain⟩ = offchain := by
  rw [isOffchain, markPart_wordOf]
  cases offchain <;> decide

theorem namespacePart_wordOf (fits : worldNamespace.length ≤ namespaceWidth) (name : Bytes)
    (offchain : Bool) : namespacePart ⟨wordOf worldNamespace name offchain⟩ =
      Bytes.padRight namespaceWidth worldNamespace := by
  rw [namespacePart, wordOf, List.append_assoc, List.drop_left' (length_mark offchain),
    List.take_left' (length_padRight fits)]

theorem namePart_wordOf (fits : worldNamespace.length ≤ namespaceWidth) (name : Bytes)
    (offchain : Bool) : namePart ⟨wordOf worldNamespace name offchain⟩ =
      Bytes.padRight nameWidth (name.take nameWidth) := by
  have front : (mark offchain ++ Bytes.padRight namespaceWidth worldNamespace).length =
      markWidth + namespaceWidth := by
    rw [List.length_append, length_mark, length_padRight fits]
  rw [namePart, wordOf, List.drop_left' front]

/-- A part of ASCII characters other than the zero byte is read back whole. -/
theorem encode_partText_padRight {bytes : Bytes} (width : Nat)
    (range : ∀ byte ∈ bytes, 0 < byte.toNat ∧ byte.toNat < 0x80) :
    Utf8.encode (partText (Bytes.padRight width bytes)) = bytes := by
  have nonzero : ∀ byte ∈ bytes, byte ≠ 0 := by
    rintro byte member rfl
    exact Nat.lt_irrefl 0 (range 0 member).1
  rw [partText, Bytes.trimRight_padRight, Bytes.trimRight_eq_self nonzero,
    Utf8.encode_decodeLossy fun byte member => (range byte member).2]

/-! ## Identifiers of identifiers -/

theorem make_eq_ok_iff {worldNamespace name : String} {id : TableId} :
    make worldNamespace name offchain = .ok id ↔
      (Utf8.encode worldNamespace).length ≤ namespaceWidth ∧
        id = ⟨wordOf (Utf8.encode worldNamespace) (Utf8.encode name) offchain⟩ := by
  unfold make
  split
  · simp only [reduceCtorEq, false_iff, not_and]
    omega
  · rename_i fits
    rw [Except.ok.injEq, eq_comm]
    exact (and_iff_right (by omega)).symm

theorem range_of_matches {name : String} (named : name = "" ∨ Identifier.Matches name) :
    ∀ byte ∈ Utf8.encode name, 0 < byte.toNat ∧ byte.toNat < 0x80 := by
  rcases named with rfl | matched
  · exact fun byte member => absurd member List.not_mem_nil
  · exact matched.range

theorem trimRight_keptName {name : String} (matched : Identifier.Matches name) :
    Bytes.trimRight (keptName name) = keptName name := by
  refine Bytes.trimRight_eq_self ?_
  rintro byte member rfl
  exact Nat.lt_irrefl 0 (matched.range 0 (List.mem_of_mem_take member)).1

end TableId

namespace SchemaRules

variable {rules : SchemaRules} {name : String}

theorem matches_of_nameFlaw? (strict : rules.identifierNames = true)
    (sound : rules.nameFlaw? name = none) : Identifier.Matches name := by
  rw [← Identifier.isIdentifier_iff]
  by_contra strange
  rw [Bool.not_eq_true] at strange
  rw [nameFlaw?, strict, strange] at sound
  split at sound <;> cases sound

theorem matches_of_validate {registry : Registry} {declaration : TableDeclaration}
    {schema : Schema} (strict : rules.identifierNames = true)
    (accepted : rules.validate registry declaration = .ok schema) :
    Identifier.Matches schema.name := by
  rw [(validate_eq_ok accepted).2.2.1]
  obtain ⟨_, named, -⟩ := Outcome.bind_eq_ok.mp accepted
  exact matches_of_nameFlaw? strict (checkName_eq_ok_iff.mp named)

end SchemaRules

/-! ## Clashes -/

/-- Tables of one name, or of one kind and of names that begin alike. -/
def Table.Clashes (table other : Table) : Prop :=
  other.name = table.name ∨
    other.schema.offchain = table.schema.offchain ∧
      TableId.keptName other.name = TableId.keptName table.name

namespace Draft

variable {draft : Draft} {declaration : TableDeclaration} {table other : Table}

/-- Tables of one namespace, under names that are identifiers. -/
theorem id_eq_iff (strict : draft.settings.schema.identifierNames = true)
    (prepared : draft.prepare declaration = .ok table) {otherDeclaration : TableDeclaration}
    (prepared' : draft.prepare otherDeclaration = .ok other) :
    other.id = table.id ↔ other.schema.offchain = table.schema.offchain ∧
      TableId.keptName other.name = TableId.keptName table.name := by
  obtain ⟨validated, -, made⟩ := prepare_eq_ok_iff.mp prepared
  obtain ⟨validated', -, made'⟩ := prepare_eq_ok_iff.mp prepared'
  have kept := TableId.trimRight_keptName (SchemaRules.matches_of_validate strict validated)
  have kept' := TableId.trimRight_keptName (SchemaRules.matches_of_validate strict validated')
  obtain ⟨fits, word⟩ := TableId.make_eq_ok_iff.mp made
  obtain ⟨-, word'⟩ := TableId.make_eq_ok_iff.mp made'
  rw [word, word', TableId.mk.injEq, TableId.wordOf_eq_iff fits fits]
  change _ ∧ _ ∧ Bytes.trimRight (TableId.keptName other.schema.name) =
    Bytes.trimRight (TableId.keptName table.schema.name) ↔ _
  rw [kept, kept']
  exact and_congr_right' (and_iff_right rfl)

theorem Reachable.clashes_iff (reachable : draft.Reachable)
    (strict : draft.settings.schema.identifierNames = true)
    (prepared : draft.prepare declaration = .ok table) (member : other ∈ draft.catalog.tables) :
    table.Clashes other ↔ other.name = declaration.name ∨ other.id = table.id := by
  obtain ⟨otherDeclaration, prepared'⟩ := reachable.sound.tables other member
  rw [id_eq_iff strict prepared prepared', ← name_of_prepare prepared]
  rfl

/-- A table that has been prepared is refused for a clash, and for nothing else. -/
theorem Reachable.register_of_prepare (reachable : draft.Reachable)
    (strict : draft.settings.schema.identifierNames = true)
    (prepared : draft.prepare declaration = .ok table) :
    ((∃ other ∈ draft.catalog.tables, table.Clashes other) →
        draft.register declaration = .error (.duplicateTable declaration.name)) ∧
      ((∀ other ∈ draft.catalog.tables, ¬table.Clashes other) →
        draft.register declaration = .ok { draft with catalog := draft.catalog.add table }) := by
  have names : draft.catalog.hasName declaration.name = false ↔ _ :=
    reachable.indexed.hasName_eq_false_iff
  have ids : draft.catalog.hasId table.id = false ↔ _ := reachable.indexed.hasId_eq_false_iff
  constructor
  · rintro ⟨other, member, clash⟩
    unfold Draft.register
    split
    · rfl
    · rename_i fresh
      have unnamed := names.mp (by simpa using fresh) other member
      have same := ((reachable.clashes_iff strict prepared member).mp clash).resolve_left unnamed
      have taken : draft.catalog.hasId table.id = true := by
        by_contra free
        exact ids.mp (by simpa using free) other member same
      simp [prepared, taken]
  · intro apart
    have distinct (other : Table) (member : other ∈ draft.catalog.tables) :
        other.name ≠ declaration.name ∧ other.id ≠ table.id := by
      rw [← not_or, ← reachable.clashes_iff strict prepared member]
      exact apart other member
    exact Draft.register_eq_ok_iff.mpr ⟨names.mpr fun other member => (distinct other member).1,
      table, prepared, ids.mpr fun other member => (distinct other member).2, rfl⟩

end Draft

/-! ## What an identifier tells -/

/--
Identifiers are equal exactly when the kinds are, and the namespaces and the first sixteen bytes of
the names up to zero bytes at their ends; a namespace of more than fourteen bytes has none.  Of
identifiers in the sense of the language all of the namespace, the first sixteen bytes of the name
and the kind are read back, so tables under such names clash only when they have one name, or are of
one kind and have names of the same first sixteen bytes.
-/
theorem TableId.make_separates :
    (∀ worldNamespace otherNamespace name otherName : String, ∀ offchain otherOffchain : Bool,
        (Utf8.encode worldNamespace).length ≤ 14 → (Utf8.encode otherNamespace).length ≤ 14 →
          ∃ id other, make worldNamespace name offchain = .ok id ∧
            make otherNamespace otherName otherOffchain = .ok other ∧
            (id = other ↔ offchain = otherOffchain ∧
              Bytes.trimRight (Utf8.encode worldNamespace) =
                Bytes.trimRight (Utf8.encode otherNamespace) ∧
              Bytes.trimRight ((Utf8.encode name).take 16) =
                Bytes.trimRight ((Utf8.encode otherName).take 16))) ∧
      (∀ worldNamespace name offchain, 15 ≤ (Utf8.encode worldNamespace).length →
        make worldNamespace name offchain =
          .error (.invalidName worldNamespace (.namespaceTooLong 14))) ∧
      (∀ worldNamespace name offchain, (worldNamespace = "" ∨ Identifier.Matches worldNamespace) →
        (Utf8.encode worldNamespace).length ≤ 14 → Identifier.Matches name →
          ∃ id, make worldNamespace name offchain = .ok id ∧ id.worldNamespace = worldNamespace ∧
            Utf8.encode id.name = (Utf8.encode name).take 16 ∧ id.isOffchain = offchain) ∧
      ∀ draft : Draft, draft.Reachable → draft.settings.schema.identifierNames = true →
        ∀ declaration table, draft.prepare declaration = .ok table →
          ((∃ other ∈ draft.catalog.tables, table.Clashes other) →
              draft.register declaration = .error (.duplicateTable declaration.name)) ∧
            ((∀ other ∈ draft.catalog.tables, ¬table.Clashes other) →
              draft.register declaration =
                .ok { draft with catalog := draft.catalog.add table }) := by
  refine ⟨?_, ?_, ?_, fun draft reachable strict declaration table prepared =>
    reachable.register_of_prepare strict prepared⟩
  · intro worldNamespace otherNamespace name otherName offchain otherOffchain fits fits'
    refine ⟨_, _, make_eq_ok_iff.mpr ⟨fits, rfl⟩, make_eq_ok_iff.mpr ⟨fits', rfl⟩, ?_⟩
    rw [TableId.mk.injEq]
    exact wordOf_eq_iff fits fits'
  · intro worldNamespace name offchain long
    exact if_pos long
  · intro worldNamespace name offchain named fits matched
    refine ⟨_, make_eq_ok_iff.mpr ⟨fits, rfl⟩, ?_, ?_, isOffchain_wordOf _ _ _⟩
    · refine Utf8.encode_injective ?_
      rw [TableId.worldNamespace, namespacePart_wordOf fits]
      exact encode_partText_padRight _ (range_of_matches named)
    · rw [TableId.name, namePart_wordOf fits]
      refine encode_partText_padRight _ fun byte member => ?_
      exact matched.range byte (List.mem_of_mem_take member)

namespace Twins

/-- A third table, with a name that begins as those of the twins do. -/
def third : TableDeclaration where
  name := "PlayerPositionOneMore"
  fields := [⟨"x", "uint8"⟩]

def thirdTable : Table where
  id := onchain.id
  schema := { onchain.schema with name := "PlayerPositionOneMore" }
  layout := { onchain.layout with table := "PlayerPositionOneMore" }

theorem prepare_third : draft.prepare third = .ok thirdTable := by
  decide +kernel

end Twins

/-- A zero byte at the end of a namespace is lost, and the third table clashes with a twin. -/
theorem TableId.make_separates_twins :
    make "game\x00" "Player" false = make "game" "Player" false ∧
      make "fifteen_letters" "Player" false =
        .error (.invalidName "fifteen_letters" (.namespaceTooLong 14)) ∧
      (∃ id, make "game" "PlayerPositionOne" true = .ok id ∧ id.worldNamespace = "game" ∧
        Utf8.encode id.name = (Utf8.encode "PlayerPositionOne").take 16 ∧ id.isOffchain = true) ∧
      Twins.draft.register Twins.third = .error (.duplicateTable "PlayerPositionOneMore") := by
  obtain ⟨equal, long, parts, clashes⟩ := make_separates
  refine ⟨?_, long _ _ _ (by decide), parts _ _ _ (.inr (by decide)) (by decide) (by decide), ?_⟩
  · obtain ⟨id, other, made, made', same⟩ :=
      equal "game\x00" "game" "Player" "Player" false false (by decide) (by decide)
    rw [made, made', same.mpr ⟨rfl, by decide, rfl⟩]
  · have reachable := Twins.reachable_start.registerAll Twins.registerAll_tables
    exact (clashes _ reachable rfl _ _ Twins.prepare_third).1
      ⟨Twins.onchain, by decide, .inr ⟨rfl, by decide⟩⟩

end PackedTables
