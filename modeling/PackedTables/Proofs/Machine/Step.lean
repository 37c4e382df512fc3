import PackedTables.Bytes
import PackedTables.Text.Numeral

/-!
# A machine that can trap

A machine with words of sixty-four bits.  Every sum, difference, product and quotient, every stretch
of a list and every place in it is checked where it is used, and the machine traps where a check
fails.  A run follows an outcome when it takes every step and comes to that outcome.
-/

namespace PackedTables.Machine

variable {ε φ α β : Type}

/-- Steps that a machine cannot take. -/
inductive Trap
  | overflow
  | divisor
  | outside
  | copy
  | wide
  deriving DecidableEq

/-- How a run ends early: the machine traps, or what it reads is refused. -/
inductive Stop (ε : Type)
  | trapped (trap : Trap)
  | refused (cause : ε)
  deriving DecidableEq

def Stop.map (change : ε → φ) : Stop ε → Stop φ
  | trapped trap => .trapped trap
  | refused cause => .refused (change cause)

abbrev Run (ε α : Type) := Except (Stop ε) α

def trap (trap : Trap) : Run ε α := .error (.trapped trap)

def refuse (cause : ε) : Run ε α := .error (.refused cause)

/-- An outcome that takes no step of the machine. -/
def lift (outcome : Except ε α) : Run ε α := outcome.mapError .refused

def mapRefusal (change : ε → φ) (run : Run ε α) : Run φ α := run.mapError (Stop.map change)

/-! ## Steps -/

def add (first second : Nat) : Run ε Nat :=
  if first + second ≤ Numeral.maxWord then .ok (first + second) else trap .overflow

def subtract (first second : Nat) : Run ε Nat :=
  if second ≤ first then .ok (first - second) else trap .overflow

def multiply (first second : Nat) : Run ε Nat :=
  if first * second ≤ Numeral.maxWord then .ok (first * second) else trap .overflow

def quotient (number divisor : Nat) : Run ε Nat :=
  if divisor = 0 then trap .divisor else .ok (number / divisor)

def remainder (number divisor : Nat) : Run ε Nat :=
  if divisor = 0 then trap .divisor else .ok (number % divisor)

/-- A sum, one number after another. -/
def sum (numbers : List Nat) : Run ε Nat := numbers.foldlM add 0

def item (items : List α) (place : Nat) : Run ε α :=
  match items[place]? with
  | some item => .ok item
  | none => trap .outside

/-- A stretch by its start and its stop, when it lies inside. -/
def stretch? (items : List α) (start stop : Nat) : Option (List α) :=
  if start ≤ stop ∧ stop ≤ items.length then some ((items.drop start).take (stop - start)) else none

def stretch (items : List α) (start stop : Nat) : Run ε (List α) :=
  match stretch? items start stop with
  | some part => .ok part
  | none => trap .outside

/-- Bytes over those of a buffer, from a start to its very end. -/
def copy (buffer : Bytes) (start : Nat) (part : Bytes) : Run ε Bytes :=
  if start ≤ buffer.length then
    if part.length = buffer.length - start then .ok (buffer.take start ++ part) else trap .copy
  else trap .outside

def chunks (width : Nat) (bytes : Bytes) : Run ε (List Bytes) :=
  if positive : 0 < width then .ok (bytes.chunks width positive) else trap .divisor

/-! ## Steps that are taken -/

theorem add_eq {first second : Nat} (fits : first + second ≤ Numeral.maxWord) :
    (add first second : Run ε Nat) = .ok (first + second) :=
  if_pos fits

theorem subtract_eq {first second : Nat} (fits : second ≤ first) :
    (subtract first second : Run ε Nat) = .ok (first - second) :=
  if_pos fits

theorem foldlM_add_eq {numbers : List Nat} {start : Nat}
    (fits : start + Bytes.joinedLength numbers ≤ Numeral.maxWord) :
    (numbers.foldlM add start : Run ε Nat) = .ok (start + Bytes.joinedLength numbers) := by
  induction numbers generalizing start with
  | nil => rfl
  | cons number rest ih =>
      rw [Bytes.joinedLength, ← Nat.add_assoc] at fits
      rw [List.foldlM_cons, add_eq (by omega)]
      change List.foldlM add (start + number) rest = _
      rw [ih fits, Bytes.joinedLength, Nat.add_assoc]

theorem sum_eq {numbers : List Nat} (fits : Bytes.joinedLength numbers ≤ Numeral.maxWord) :
    (sum numbers : Run ε Nat) = .ok (Bytes.joinedLength numbers) := by
  rw [← Nat.zero_add (Bytes.joinedLength numbers)] at fits ⊢
  exact foldlM_add_eq fits

theorem item_eq {items : List α} {place : Nat} {value : α} (found : items[place]? = some value) :
    (item items place : Run ε α) = .ok value := by
  rw [item, found]

theorem stretch?_eq (bytes : Bytes) (start width : Nat) :
    stretch? bytes start (start + width) = bytes.slice? start width := by
  unfold stretch? Bytes.slice?
  rw [Nat.add_sub_cancel_left]
  simp

theorem copy_eq {buffer part : Bytes} {start : Nat} (placed : start + part.length = buffer.length) :
    (copy buffer start part : Run ε Bytes) = .ok (buffer.take start ++ part) := by
  rw [copy, if_pos (by omega), if_pos (by omega)]

theorem stretch_eq {bytes part : Bytes} {start width : Nat}
    (cut : bytes.slice? start width = some part) :
    (stretch bytes start (start + width) : Run ε Bytes) = .ok part := by
  rw [stretch, stretch?_eq, cut]

/-! ## Runs that take every step -/

/-- A run that never traps, and refuses only for causes that are possible. -/
structure Follows (possible : ε → Prop) (run : Run ε α) (outcome : Except ε α) : Prop where
  same : run = lift outcome
  refusals : ∀ cause, outcome = .error cause → possible cause

namespace Follows

variable {possible : ε → Prop} {run : Run ε α} {outcome : Except ε α}

theorem ok (value : α) : Follows possible (.ok value) (.ok value) :=
  ⟨rfl, fun _ impossible => nomatch impossible⟩

theorem refuse {cause : ε} (holds : possible cause) :
    Follows (α := α) possible (refuse cause) (.error cause) :=
  ⟨rfl, fun _ same => Except.error.inj same ▸ holds⟩

theorem lift (refusals : ∀ cause, outcome = .error cause → possible cause) :
    Follows possible (lift outcome) outcome :=
  ⟨rfl, refusals⟩

theorem bind (first : Follows possible run outcome) {next : α → Run ε β} {after : α → Except ε β}
    (rest : ∀ value, outcome = .ok value → Follows possible (next value) (after value)) :
    Follows possible (run >>= next) (outcome >>= after) := by
  obtain ⟨rfl, refusals⟩ := first
  cases outcome with
  | error cause => exact refuse (refusals cause rfl)
  | ok value => exact rest value rfl

theorem map (follows : Follows possible run outcome) (change : α → β) :
    Follows possible (run.map change) (outcome.map change) := by
  obtain ⟨rfl, refusals⟩ := follows
  cases outcome with
  | error cause => exact refuse (refusals cause rfl)
  | ok value => exact ok (change value)

theorem mapRefusal {allowed : φ → Prop} (follows : Follows possible run outcome) {change : ε → φ}
    (changed : ∀ cause, possible cause → allowed (change cause)) :
    Follows allowed (mapRefusal change run) (outcome.mapError change) := by
  obtain ⟨rfl, refusals⟩ := follows
  cases outcome with
  | error cause => exact refuse (changed cause (refusals cause rfl))
  | ok value => exact ok value

theorem mapM {items : List β} {step : β → Run ε α} {plain : β → Except ε α}
    (each : ∀ item ∈ items, Follows possible (step item) (plain item)) :
    Follows possible (items.mapM step) (items.mapM plain) := by
  induction items with
  | nil => exact ok []
  | cons item rest ih =>
      obtain ⟨here, there⟩ := List.forall_mem_cons.mp each
      rw [List.mapM_cons, List.mapM_cons]
      exact here.bind fun value _ => (ih there).bind fun values _ => ok (value :: values)

theorem ite {condition : Prop} [Decidable condition] {other : Run ε α} {otherwise : Except ε α}
    (holds : condition → Follows possible run outcome)
    (fails : ¬condition → Follows possible other otherwise) :
    Follows possible (if condition then run else other)
      (if condition then outcome else otherwise) := by
  by_cases decided : condition
  · rw [if_pos decided, if_pos decided]
    exact holds decided
  · rw [if_neg decided, if_neg decided]
    exact fails decided

/-- A step of the machine alone, once it is known to be taken. -/
theorem step {taken : Run ε β} {value : β} {next : β → Run ε α} (steps : taken = .ok value)
    (follows : Follows possible (next value) outcome) :
    Follows possible (taken >>= next) outcome := by
  rw [steps]
  exact follows

end Follows

end PackedTables.Machine
