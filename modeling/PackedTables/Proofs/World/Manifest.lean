import PackedTables.Proofs.Layout.Shape
import PackedTables.Proofs.Record.Transfer
import PackedTables.Proofs.World.Draft
import PackedTables.Proofs.World.Fingerprint
import PackedTables.World.Manifest

/-!
# Manifests that match

Manifests whose fingerprints match come from worlds with the same identifiers and layout words,
table by table, unless two of the strings digested for them collide.  Layout words keep the shape of
each slot, and nothing else: field names, the ranges of enums and the counts of arrays may differ.
-/

namespace PackedTables

namespace World

/-- The strings digested for the manifest of a world: its own, then one for each table. -/
def digested (world : World) : List Bytes :=
  Fingerprint.framed (Manifest.fingerprintParts (world.tables.map (·.manifest))) ::
    world.tables.map fun table => Fingerprint.framed table.fingerprintParts

/-- Two strings of one digest that stand in one place. -/
def Collides (first second : World) : Prop :=
  ∃ pair ∈ first.digested.zip second.digested, Sha256.Collision pair.1 pair.2

end World

/-! ## Parts -/

theorem Table.framable_parts {table : Table} (length : table.id.word.length = 32) :
    ∀ part ∈ table.fingerprintParts, Fingerprint.Framable part := by
  intro part member
  have sized : part.length = 32 := by
    simp only [fingerprintParts, List.mem_cons, List.not_mem_nil, or_false] at member
    rcases member with rfl | rfl | rfl | rfl
    · exact length
    · exact Layout.length_packWord _ _ _ _
    · exact Layout.length_packWord _ _ _ _
    · exact Layout.length_packWord _ _ _ _
  rw [Fingerprint.Framable, sized]
  decide

namespace World

variable {world first second : World} {instant instant' : Instant}

theorem fingerprintParts_eq (world : World) :
    Manifest.fingerprintParts (world.tables.map (·.manifest)) =
      world.tables.map fun table => Utf8.encode table.fingerprint.text := by
  rw [Manifest.fingerprintParts, List.map_map]
  rfl

theorem framable_fingerprints (world : World) :
    ∀ part ∈ Manifest.fingerprintParts (world.tables.map (·.manifest)),
      Fingerprint.Framable part := by
  intro part member
  rw [fingerprintParts_eq] at member
  obtain ⟨table, -, rfl⟩ := List.mem_map.mp member
  exact Fingerprint.framable_text _

/-- Fingerprints that match, table by table, come from equal parts or from a collision. -/
theorem parts_eq_of_fingerprints {tables others : List Table}
    (lengths : ∀ table ∈ tables, table.id.word.length = 32)
    (lengths' : ∀ table ∈ others, table.id.word.length = 32)
    (same : tables.map Table.fingerprint = others.map Table.fingerprint) :
    tables.map Table.fingerprintParts = others.map Table.fingerprintParts ∨
      ∃ pair ∈ (tables.map fun table => Fingerprint.framed table.fingerprintParts).zip
          (others.map fun table => Fingerprint.framed table.fingerprintParts),
        Sha256.Collision pair.1 pair.2 := by
  induction tables generalizing others with
  | nil =>
      obtain rfl := List.map_eq_nil_iff.mp same.symm
      exact .inl rfl
  | cons table tables ih =>
      obtain ⟨other, others, rfl, here, there⟩ := List.map_eq_cons_iff.mp same.symm
      obtain ⟨length, rest⟩ := List.forall_mem_cons.mp lengths
      obtain ⟨length', rest'⟩ := List.forall_mem_cons.mp lengths'
      rcases Fingerprint.ofParts_eq (Table.framable_parts length) (Table.framable_parts length')
        here.symm with parts | collision
      · rcases ih rest rest' there.symm with equal | ⟨pair, member, collision⟩
        · exact .inl (by rw [List.map_cons, List.map_cons, parts, equal])
        · exact .inr ⟨pair, List.mem_cons_of_mem _ member, collision⟩
      · exact .inr ⟨_, List.mem_cons_self, collision⟩

/-- Manifests that match come from equal parts, table by table, or from a collision. -/
theorem parts_eq_of_sameLayout (reachable : first.Reachable) (reachable' : second.Reachable)
    (same : (first.manifest instant).sameLayout (second.manifest instant') = true) :
    first.tables.map Table.fingerprintParts = second.tables.map Table.fingerprintParts ∨
      Collides first second := by
  have worlds := Fingerprint.ofParts_eq first.framable_fingerprints second.framable_fingerprints
    (beq_iff_eq.mp same)
  rcases worlds with equal | collision
  · have texts : first.tables.map Table.fingerprint = second.tables.map Table.fingerprint := by
      rw [fingerprintParts_eq, fingerprintParts_eq] at equal
      have injective : Function.Injective fun print : Fingerprint => Utf8.encode print.text :=
        fun _ _ => Fingerprint.eq_of_texts
      apply injective.list_map
      rw [List.map_map, List.map_map]
      exact equal
    rcases parts_eq_of_fingerprints (fun _ member => reachable.length_word member)
      (fun _ member => reachable'.length_word member) texts with parts | ⟨pair, member, collision⟩
    · exact .inl parts
    · exact .inr ⟨pair, List.mem_cons_of_mem _ member, collision⟩
  · exact .inr ⟨_, List.mem_cons_self, collision⟩

theorem not_collides_of_apart
    (apart : ∀ text ∈ first.digested, ∀ other ∈ second.digested, ¬Sha256.Collision text other) :
    ¬Collides first second := by
  rintro ⟨pair, member, collision⟩
  have places := List.of_mem_zip member
  exact apart pair.1 places.1 pair.2 places.2 collision

end World

/-! ## Worlds of one table -/

namespace OneByte

/-- A table of one field of one byte, whose name is left open. -/
def declaration (name : String) : TableDeclaration where
  name := "T"
  fields := [⟨name, "uint8"⟩]

def field (name : String) : Field := ⟨name, .ofKind "uint8" (.uint 8)⟩

def layout (name : String) : Layout where
  table := "T"
  keySlots := []
  fixedSlots := [⟨field name, 0, 0, 1⟩]
  dynamicSlots := []
  keyLength := 0
  staticLength := 1

def table (name : String) : Table where
  id := ⟨TableId.wordOf [] [0x54] false⟩
  schema := ⟨"T", [field name], [], false⟩
  layout := layout name

def draft (name : String) : Draft := ⟨.standard, .standard, "", Catalog.empty.add (table name)⟩

def world (name : String) : World := (draft name).build

def record : Record := ⟨[], [5]⟩

def instant : Instant := ⟨⟨1970, 1, 1, by decide⟩, ⟨0, 0, 0, 0, by decide⟩⟩

theorem reachable_a : (world "a").Reachable := by
  have registered : (Draft.new .standard).register (declaration "a") = .ok (draft "a") := rfl
  exact ⟨draft "a", .register (.new .standard) registered, rfl⟩

theorem reachable_b : (world "b").Reachable := by
  have registered : (Draft.new .standard).register (declaration "b") = .ok (draft "b") := rfl
  exact ⟨draft "b", .register (.new .standard) registered, rfl⟩

theorem sameLayout (name other : String) :
    ((world name).manifest instant).sameLayout ((world other).manifest instant) = true :=
  beq_self_eq_true _

theorem apart : ∀ text ∈ (world "a").digested, ∀ other ∈ (world "b").digested,
    ¬Sha256.Collision text other := by
  rintro text member other member' ⟨different, same⟩
  have digests : ((world "a").digested.map Sha256.digest).Nodup := by decide +kernel
  exact different (List.inj_on_of_nodup_map digests member member' same)

end OneByte

/-! ## Reading alike -/

namespace World

variable {first second : World} {instant instant' : Instant}

/-- Worlds whose manifests match have as many tables, and each table reads what the one in its place
reads, up to names, ranges and counts. -/
theorem readAlike_of_sameLayout (reachable : first.Reachable) (reachable' : second.Reachable)
    (settings : first.settings.codec = second.settings.codec)
    (same : (first.manifest instant).sameLayout (second.manifest instant') = true)
    (apart : ¬Collides first second) :
    first.tables.length = second.tables.length ∧
      ∀ (index : Nat) (table other : Table), first.tables[index]? = some table →
        second.tables[index]? = some other →
        table.id = other.id ∧ ∀ record, table.layout.ReadAlike other.layout
          (first.settings.codec.decode table.layout record)
          (second.settings.codec.decode other.layout record) := by
  have parts := (parts_eq_of_sameLayout reachable reachable' same).resolve_right apart
  refine ⟨by simpa using congrArg List.length parts, ?_⟩
  intro index table other here here'
  have equal : table.fingerprintParts = other.fingerprintParts := by
    have places := congrArg (·[index]?) parts
    simpa [here, here'] using places
  simp only [Table.fingerprintParts, List.cons.injEq, and_true] at equal
  obtain ⟨word, -, key, value⟩ := equal
  have sound := reachable.layout_sound (List.mem_of_getElem? here)
  have sound' := reachable'.layout_sound (List.mem_of_getElem? here')
  refine ⟨congrArg TableId.mk word, fun record => ?_⟩
  rw [← settings]
  exact CodecRules.readAlike_of_agrees sound sound' (Layout.agrees_of_words sound sound' key value)
    record

/-- A field that was renamed: both tables accept the record. -/
theorem readAlike_of_sameLayout_renamed :
    (OneByte.layout "a").ReadAlike (OneByte.layout "b")
        ((OneByte.world "a").settings.codec.decode (OneByte.layout "a") OneByte.record)
        ((OneByte.world "b").settings.codec.decode (OneByte.layout "b") OneByte.record) ∧
      ((OneByte.world "b").settings.codec.decode (OneByte.layout "b") OneByte.record).isOk = true := by
  have alike := readAlike_of_sameLayout OneByte.reachable_a OneByte.reachable_b rfl
    (OneByte.sameLayout "a" "b") (not_collides_of_apart OneByte.apart)
  obtain ⟨-, reads⟩ := alike.2 0 (OneByte.table "a") (OneByte.table "b") rfl rfl
  have accepted := (reads OneByte.record).accepted rfl
  refine ⟨reads OneByte.record, accepted ▸ ?_⟩
  decide +kernel

/-- Manifests do not tell names apart, so rows may differ in them. -/
theorem renamed_reads_apart :
    (OneByte.world "a").Reachable ∧ (OneByte.world "b").Reachable ∧
      (OneByte.world "a").settings = (OneByte.world "b").settings ∧
      (∀ text ∈ (OneByte.world "a").digested, ∀ other ∈ (OneByte.world "b").digested,
        ¬Sha256.Collision text other) ∧
      ((OneByte.world "a").manifest OneByte.instant).sameLayout
        ((OneByte.world "b").manifest OneByte.instant) = true ∧
      (OneByte.world "a").decode "T" OneByte.record = .ok (Row.ofList [("a", .uint 5)]) ∧
      (OneByte.world "b").decode "T" OneByte.record = .ok (Row.ofList [("b", .uint 5)]) := by
  refine ⟨OneByte.reachable_a, OneByte.reachable_b, rfl, OneByte.apart, OneByte.sameLayout "a" "b",
    ?_, ?_⟩
  · decide +kernel
  · decide +kernel

end World

end PackedTables
