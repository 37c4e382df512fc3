import PackedTables.Proofs.Layout.Sound
import PackedTables.Text.Numeral

/-!
# How far a layout reaches

Each stretch of a run lies between the ends of the run.  No field of fixed width takes more than
thirty-two bytes, so the runs of a layout end far below the largest word of sixty-four bits.
-/

namespace PackedTables

theorem Span.Run.joinedLength_widths {start stop : Nat} {spans : List Span}
    (run : Span.Run start spans stop) :
    start + Bytes.joinedLength (spans.map (·.width)) = stop := by
  induction run with
  | nil => rfl
  | cons sized run ih =>
      rw [List.map_cons, Bytes.joinedLength, ← Nat.add_assoc]
      exact ih

theorem Span.Run.start_le {start stop : Nat} {spans : List Span} (run : Span.Run start spans stop) :
    start ≤ stop :=
  run.joinedLength_widths ▸ Nat.le_add_right _ _

theorem Span.Run.inside {start stop : Nat} {spans : List Span} (run : Span.Run start spans stop) :
    ∀ span ∈ spans, span.offset + span.width ≤ stop := by
  induction run with
  | nil => simp
  | cons sized run ih => exact List.forall_mem_cons.mpr ⟨run.start_le, ih⟩

/-- No field of fixed width takes more than thirty-two bytes. -/
theorem Field.width_le {field : Field} (type : field.type.Sound) {width : Nat}
    (sized : field.width? = some width) : width ≤ 32 := by
  obtain ⟨exact, fixed, -, short⟩ := (Field.scalar_of_width? type sized).width_eq
  obtain rfl := Width.fixed.inj (((Field.width?_eq_some_iff type).mp sized).symm.trans fixed)
  exact short

theorem Span.Run.stop_le {start stop : Nat} {spans : List Span} (run : Span.Run start spans stop)
    (types : ∀ span ∈ spans, span.field.type.Sound) : stop ≤ start + 32 * spans.length := by
  induction run with
  | nil => exact Nat.le_refl _
  | @cons field start width stop rest sized run ih =>
      obtain ⟨type, types⟩ := List.forall_mem_cons.mp types
      have here := Field.width_le type sized
      have there := ih types
      rw [List.length_cons]
      omega

namespace Layout.Sound

variable {layout : Layout} (sound : layout.Sound)
include sound

theorem keyLength_lt : layout.keyLength < 65536 := by
  have long := sound.keyRun.stop_le (List.forall_mem_map.mpr fun _ => sound.keyType)
  have few := sound.within.fewKeys
  rw [keySpans, List.length_map] at long
  unfold Limits.maxFields at few
  omega

theorem keyLength_le_maxWord : layout.keyLength ≤ Numeral.maxWord :=
  Nat.le_trans (Nat.le_of_lt sound.keyLength_lt) (by decide)

theorem staticLength_le_maxWord : layout.staticLength ≤ Numeral.maxWord :=
  Nat.le_trans sound.within.shortBlock (by decide)

end Layout.Sound

end PackedTables
