import PackedTables.Proofs.Json.Spread
import PackedTables.Proofs.Time.Instant
import PackedTables.World.Manifest.Json

/-!
# Manifests that are kept

The text of a manifest is read as that manifest, whatever characters its names have: every part is
written under a name of its own, and read where it was written.
-/

namespace PackedTables

namespace Json

/-! ## Structures -/

theorem mapM_map_eq_some {α β γ : Type} {read : β → Option γ} {write : α → β} {value : α → γ}
    {items : List α} (each : ∀ item ∈ items, read (write item) = some (value item)) :
    (items.map write).mapM read = some (items.map value) := by
  induction items with
  | nil => rfl
  | cons item rest ih =>
      obtain ⟨here, there⟩ := List.forall_mem_cons.mp each
      rw [List.map_cons, List.mapM_cons, here, ih there]
      rfl

theorem list?_map {α : Type} {read : Json → Option α} {write : α → Json}
    (exact : ∀ item, read (write item) = some item) (items : List α) :
    list? read (.array (items.map write)) = some items := by
  have same : (items.map write).mapM read = some (items.map id) :=
    mapM_map_eq_some fun item _ => exact item
  rwa [List.map_id] at same

variable {members : List (String × Json)}

theorem filter_name {member : String × Json} (distinct : (members.map (·.1)).Nodup)
    (listed : member ∈ members) :
    (members.filter fun other => other.1 == member.1) = [member] := by
  induction members with
  | nil => cases listed
  | cons head rest ih =>
      rw [List.map_cons, List.nodup_cons] at distinct
      obtain ⟨fresh, distinct⟩ := distinct
      rcases List.mem_cons.mp listed with rfl | later
      · have none : (rest.filter fun other => other.1 == member.1) = [] := by
          refine List.filter_eq_nil_iff.mpr fun other inRest same => fresh ?_
          exact beq_iff_eq.mp same ▸ List.mem_map_of_mem inRest
        rw [List.filter_cons, if_pos (beq_self_eq_true _), none]
      · have other : ¬(head.1 == member.1) = true := fun same =>
          fresh (beq_iff_eq.mp same ▸ List.mem_map_of_mem later)
        rw [List.filter_cons, if_neg other, ih distinct later]

theorem slotNamed?_of_mem {member : String × Json} (distinct : (members.map (·.1)).Nodup)
    (listed : member ∈ members) :
    slotNamed? (members.map fun other => (some other.1, other.2)) member.1 =
      some (.given member.2) := by
  have named : (fun other : MemberName × Json => other.1 == some member.1) ∘
      (fun other : String × Json => (some other.1, other.2)) = fun other => other.1 == member.1 :=
    funext fun other => by simp [Function.comp]
  rw [slotNamed?, List.filter_map, named, filter_name distinct listed]
  rfl

/-- An object is read into one slot for each of its members, when their names differ. -/
theorem slots?_record (members : List (String × Json)) (distinct : (members.map (·.1)).Nodup) :
    slots? (members.map (·.1)) (record members) =
      some (members.map fun member => .given member.2) := by
  have whole : (members.map fun member => (some member.1, member.2)).all
      (fun member : MemberName × Json => member.1.isSome) = true := by simp
  unfold slots? record
  simp only [whole, if_true]
  exact mapM_map_eq_some fun member listed => slotNamed?_of_mem distinct listed

end Json

/-! ## Parts -/

namespace ManifestField

theorem ofJson?_toJson (field : ManifestField) : ofJson? field.toJson = some field := by
  have slots : Json.slots? ["name", "type_name"] field.toJson = _ :=
    Json.slots?_record [_, _] (show ["name", "type_name"].Nodup by decide)
  rw [ofJson?, slots]
  rfl

theorem plain_toJson (field : ManifestField) : field.toJson.Plain :=
  .record (by simp [Json.Plain.text])

end ManifestField

namespace TableManifest

theorem ofJson?_toJson (table : TableManifest) : ofJson? table.toJson = some table := by
  have slots : Json.slots? ["name", "resource_id", "offchain_only", "key", "values",
      "field_layout", "key_schema", "value_schema", "checksum"] table.toJson = _ :=
    Json.slots?_record [_, _, _, _, _, _, _, _, _] (show ["name", "resource_id", "offchain_only",
      "key", "values", "field_layout", "key_schema", "value_schema", "checksum"].Nodup by decide)
  have fields := Json.list?_map ManifestField.ofJson?_toJson
  rw [ofJson?, slots]
  simp only [Option.bind_eq_bind, Option.bind_some, List.map_cons, List.map_nil, Json.Slot.required,
    Json.text?, Json.bool?, fields, Fingerprint.toJson, Fingerprint.ofJson?, Option.map_some,
    Option.pure_def]

theorem plain_toJson (table : TableManifest) : table.toJson.Plain := by
  have fields (items : List ManifestField) : (Json.array (items.map (·.toJson))).Plain := by
    refine .array fun item member => ?_
    obtain ⟨field, -, rfl⟩ := List.mem_map.mp member
    exact field.plain_toJson
  refine .record ?_
  simp [Json.Plain.text, Json.Plain.bool, fields, Fingerprint.toJson]

end TableManifest

namespace Manifest

theorem ofJson?_toJson (manifest : Manifest) : ofJson? manifest.toJson = some manifest := by
  have slots :
      Json.slots? ["namespace", "generated_at", "tables", "checksum"] manifest.toJson = _ :=
    Json.slots?_record [_, _, _, _]
      (show ["namespace", "generated_at", "tables", "checksum"].Nodup by decide)
  have tables := Json.list?_map TableManifest.ofJson?_toJson
  rw [ofJson?, slots]
  simp only [Option.bind_eq_bind, Option.bind_some, List.map_cons, List.map_nil, Json.Slot.required,
    Json.text?, tables, Fingerprint.toJson, Fingerprint.ofJson?, Instant.toJson, Instant.ofJson?,
    Instant.read?_text, Option.map_some, Option.pure_def]

theorem plain_toJson (manifest : Manifest) : manifest.toJson.Plain := by
  have tables : (Json.array (manifest.tables.map (·.toJson))).Plain := by
    refine .array fun item member => ?_
    obtain ⟨table, -, rfl⟩ := List.mem_map.mp member
    exact table.plain_toJson
  refine .record ?_
  simp [Json.Plain.text, tables, Fingerprint.toJson, Instant.toJson]

theorem parse?_text (manifest : Manifest) : parse? manifest.text = some manifest := by
  rw [parse?, text, manifest.plain_toJson.parse?_spread, Option.bind_some, ofJson?_toJson]

end Manifest

/--
The text of a manifest of a world, at any instant, is read as a manifest, which is that one in every
part: it tells the same layout, and under each name it has the same table.
-/
theorem World.exists_read_manifest (world : World) (instant : Instant) :
    ∃ read, Manifest.parse? (world.manifest instant).text = some read ∧
      read = world.manifest instant ∧ read.sameLayout (world.manifest instant) = true ∧
      ∀ name, read.find? name = (world.manifest instant).find? name :=
  ⟨_, Manifest.parse?_text _, rfl, beq_self_eq_true _, fun _ => rfl⟩

end PackedTables
