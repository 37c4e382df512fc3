/-!
# Outcomes

A computation that can be refused succeeds exactly when each of its steps does.  The lemmas open
one step at a time.  For a step over a list the values are those of the items, one each.
-/

namespace PackedTables.Outcome

variable {ε φ α β : Type}

theorem ok_bind (value : α) (next : α → Except ε β) : Except.ok value >>= next = next value := rfl

theorem error_bind (fault : ε) (next : α → Except ε β) :
    Except.error fault >>= next = .error fault := rfl

theorem bind_eq_ok {outcome : Except ε α} {next : α → Except ε β} {value : β} :
    outcome >>= next = .ok value ↔ ∃ middle, outcome = .ok middle ∧ next middle = .ok value := by
  cases outcome with
  | error fault => simp [bind, Except.bind]
  | ok middle => simp [bind, Except.bind]

theorem bind_eq_error {outcome : Except ε α} {next : α → Except ε β} {fault : ε} :
    outcome >>= next = .error fault ↔
      outcome = .error fault ∨ ∃ middle, outcome = .ok middle ∧ next middle = .error fault := by
  cases outcome with
  | error flaw => simp [bind, Except.bind]
  | ok middle => simp [bind, Except.bind]

theorem map_eq_ok {outcome : Except ε α} {change : α → β} {value : β} :
    outcome.map change = .ok value ↔ ∃ middle, outcome = .ok middle ∧ change middle = value := by
  cases outcome with
  | error fault => simp [Except.map]
  | ok middle => simp [Except.map]

theorem map_eq_error {outcome : Except ε α} {change : α → β} {fault : ε} :
    outcome.map change = .error fault ↔ outcome = .error fault := by
  cases outcome with
  | error flaw => simp [Except.map]
  | ok middle => simp [Except.map]

theorem mapError_eq_ok {outcome : Except ε α} {change : ε → φ} {value : α} :
    outcome.mapError change = .ok value ↔ outcome = .ok value := by
  cases outcome with
  | error fault =>
      change Except.error (change fault) = .ok value ↔ _
      simp
  | ok middle =>
      change Except.ok middle = .ok value ↔ _
      simp

theorem mapError_eq_error {outcome : Except ε α} {change : ε → φ} {fault : φ} :
    outcome.mapError change = .error fault ↔
      ∃ flaw, outcome = .error flaw ∧ change flaw = fault := by
  cases outcome with
  | error flaw =>
      change Except.error (change flaw) = .error fault ↔ _
      simp
  | ok value =>
      change Except.ok value = .error fault ↔ _
      simp

theorem mapError_mapError {ψ : Type} (outcome : Except ε α) (change : ε → φ) (next : φ → ψ) :
    (outcome.mapError change).mapError next = outcome.mapError fun fault => next (change fault) := by
  cases outcome <;> rfl

theorem mapError_map (outcome : Except ε α) (change : ε → φ) (next : α → β) :
    (next <$> outcome).mapError change = next <$> outcome.mapError change := by
  cases outcome <;> rfl

theorem mapError_bind (outcome : Except ε α) (change : ε → φ) (next : α → Except ε β) :
    (outcome >>= next).mapError change =
      outcome.mapError change >>= fun value => (next value).mapError change := by
  cases outcome <;> rfl

theorem mapError_mapM (items : List α) (step : α → Except ε β) (change : ε → φ) :
    (items.mapM step).mapError change = items.mapM fun item => (step item).mapError change := by
  induction items with
  | nil => rfl
  | cons item rest ih =>
      rw [List.mapM_cons, List.mapM_cons, mapError_bind]
      refine congrArg _ (funext fun value => ?_)
      rw [mapError_bind, ih]
      rfl

/-- Items that a step refuses alike, before and after a change, are refused alike in a run. -/
theorem mapError_mapM_map {step again : α → Except ε β} {change : ε → φ} {edit : α → α}
    (each : ∀ item, (again (edit item)).mapError change = (step item).mapError change)
    (items : List α) :
    ((items.map edit).mapM again).mapError change = (items.mapM step).mapError change := by
  rw [mapError_mapM, mapError_mapM, List.mapM_map]
  exact congrArg (List.mapM · items) (funext each)

theorem pure_eq_ok {first value : α} : (pure first : Except ε α) = .ok value ↔ first = value := by
  simp [pure, Except.pure]

/-- A run over a list succeeds with one value for each item. -/
theorem mapM_eq_ok {step : α → Except ε β} {items : List α} {values : List β} :
    items.mapM step = .ok values ↔
      ∃ pairs : List (α × β), pairs.map (·.1) = items ∧ pairs.map (·.2) = values ∧
        ∀ pair ∈ pairs, step pair.1 = .ok pair.2 := by
  constructor
  · intro run
    induction items generalizing values with
    | nil => exact ⟨[], rfl, pure_eq_ok.mp run, by simp⟩
    | cons item rest ih =>
        rw [List.mapM_cons] at run
        obtain ⟨value, here, continued⟩ := bind_eq_ok.mp run
        obtain ⟨others, there, same⟩ := bind_eq_ok.mp continued
        obtain rfl := pure_eq_ok.mp same
        obtain ⟨pairs, rfl, rfl, each⟩ := ih there
        refine ⟨(item, value) :: pairs, rfl, rfl, fun pair member => ?_⟩
        rcases List.mem_cons.mp member with rfl | inRest
        · exact here
        · exact each pair inRest
  · rintro ⟨pairs, rfl, rfl, each⟩
    induction pairs with
    | nil => rfl
    | cons pair rest ih =>
        have here := each pair List.mem_cons_self
        have there := ih fun other member => each other (List.mem_cons_of_mem _ member)
        rw [List.map_cons, List.map_cons, List.mapM_cons]
        exact bind_eq_ok.mpr ⟨pair.2, here, bind_eq_ok.mpr ⟨_, there, rfl⟩⟩

theorem mapM_eq_error {step : α → Except ε β} {items : List α} {fault : ε}
    (refused : items.mapM step = .error fault) : ∃ item ∈ items, step item = .error fault := by
  induction items with
  | nil => cases refused
  | cons item rest ih =>
      rw [List.mapM_cons] at refused
      rcases bind_eq_error.mp refused with here | ⟨value, here, continued⟩
      · exact ⟨item, List.mem_cons_self, here⟩
      · rcases bind_eq_error.mp continued with there | ⟨values, there, impossible⟩
        · obtain ⟨other, member, same⟩ := ih there
          exact ⟨other, List.mem_cons_of_mem _ member, same⟩
        · cases impossible

theorem length_of_mapM {step : α → Except ε β} {items : List α} {values : List β}
    (run : items.mapM step = .ok values) : values.length = items.length := by
  obtain ⟨pairs, rfl, rfl, each⟩ := mapM_eq_ok.mp run
  rw [List.length_map, List.length_map]

/-- What each step keeps a run over a list keeps. -/
theorem foldlM_keeps {motive : β → Prop} {step : β → α → Except ε β}
    (keeps : ∀ state item next, motive state → step state item = .ok next → motive next)
    {items : List α} {state final : β} (holds : motive state)
    (run : items.foldlM step state = .ok final) : motive final := by
  induction items generalizing state with
  | nil =>
      obtain rfl := pure_eq_ok.mp run
      exact holds
  | cons item rest ih =>
      rw [List.foldlM_cons] at run
      obtain ⟨next, here, there⟩ := bind_eq_ok.mp run
      exact ih (keeps state item next holds here) there

/-! ## First faults -/

/-- The first item that does not pass is refused for a fault. -/
def FirstFails (passes : α → Prop) (fails : α → ε → Prop) (items : List α) (fault : ε) : Prop :=
  ∃ before item after, items = before ++ item :: after ∧ (∀ earlier ∈ before, passes earlier) ∧
    fails item fault

/-- When a computation succeeds, and what it is refused for. -/
structure Settles (outcome : Except ε α) (passes : Prop) (fails : ε → Prop) : Prop where
  ok : (∃ value, outcome = .ok value) ↔ passes
  error : ∀ fault, outcome = .error fault ↔ fails fault

theorem firstFails_cons {passes : α → Prop} {fails : α → ε → Prop} {item : α} {rest : List α}
    {fault : ε} : FirstFails passes fails (item :: rest) fault ↔
      fails item fault ∨ passes item ∧ FirstFails passes fails rest fault := by
  constructor
  · rintro ⟨before, other, after, split, passed, failed⟩
    rcases List.cons_eq_append_iff.mp split with ⟨rfl, same⟩ | ⟨front, rfl, same⟩
    · obtain ⟨rfl, rfl⟩ := List.cons.inj same
      exact .inl failed
    · obtain ⟨here, there⟩ := List.forall_mem_cons.mp passed
      exact .inr ⟨here, front, other, after, same, there, failed⟩
  · rintro (failed | ⟨here, before, other, after, rfl, there, failed⟩)
    · exact ⟨[], item, rest, rfl, by simp, failed⟩
    · exact ⟨item :: before, other, after, rfl, List.forall_mem_cons.mpr ⟨here, there⟩, failed⟩

namespace Settles

variable {outcome : Except ε α} {passes : Prop} {fails : ε → Prop}

theorem congr (settles : Settles outcome passes fails) {passes' : Prop} {fails' : ε → Prop}
    (same : passes ↔ passes') (alike : ∀ fault, fails fault ↔ fails' fault) :
    Settles outcome passes' fails' :=
  ⟨settles.ok.trans same, fun fault => (settles.error fault).trans (alike fault)⟩

theorem of_ok (value : α) : Settles (.ok value : Except ε α) True fun _ => False :=
  ⟨by simp, by simp⟩

theorem of_error (flaw : ε) : Settles (.error flaw : Except ε α) False fun fault => fault = flaw :=
  ⟨by simp, by simp [eq_comm]⟩

theorem guard (settles : Settles outcome passes fails) (condition : Prop) [Decidable condition]
    (flaw : ε) :
    Settles (if condition then outcome else .error flaw) (condition ∧ passes)
      fun fault => ¬condition ∧ fault = flaw ∨ condition ∧ fails fault := by
  by_cases holds : condition
  · rw [if_pos holds]
    exact settles.congr (by simp [holds]) (by simp [holds])
  · rw [if_neg holds]
    exact (of_error flaw).congr (by simp [holds]) (by simp [holds])

theorem ite (condition : Prop) [Decidable condition] (value : α) (flaw : ε) :
    Settles (if condition then .ok value else .error flaw) condition
      fun fault => ¬condition ∧ fault = flaw :=
  ((of_ok value).guard condition flaw).congr (by simp) (by simp)

theorem bind (first : Settles outcome passes fails) {next : α → Except ε β} {passes' : Prop}
    {fails' : ε → Prop} (second : ∀ value, outcome = .ok value → Settles (next value) passes' fails') :
    Settles (outcome >>= next) (passes ∧ passes')
      fun fault => fails fault ∨ passes ∧ fails' fault := by
  cases outcome with
  | error flaw =>
      have stopped : ¬passes := by simp [← first.ok]
      refine ⟨by simp [stopped, bind_eq_ok], fun fault => ?_⟩
      rw [← first.error fault]
      simp [stopped, bind_eq_error]
  | ok value =>
      have passed : passes := by simp [← first.ok]
      have continued := second value rfl
      refine ⟨by simp [passed, bind_eq_ok, continued.ok], fun fault => ?_⟩
      rw [← first.error fault, ok_bind, continued.error fault]
      simp [passed]

theorem map (settles : Settles outcome passes fails) (change : α → β) :
    Settles (change <$> outcome) passes fails := by
  change Settles (Except.map _ _) _ _
  refine ⟨?_, fun fault => map_eq_error.trans (settles.error fault)⟩
  rw [← settles.ok]
  constructor
  · rintro ⟨_, mapped⟩
    obtain ⟨value, here, -⟩ := map_eq_ok.mp mapped
    exact ⟨value, here⟩
  · rintro ⟨value, here⟩
    exact ⟨change value, map_eq_ok.mpr ⟨value, here, rfl⟩⟩

theorem mapError (settles : Settles outcome passes fails) (change : ε → φ) :
    Settles (outcome.mapError change) passes
      fun fault => ∃ flaw, fails flaw ∧ change flaw = fault := by
  refine ⟨?_, fun fault => ?_⟩
  · simp only [mapError_eq_ok, settles.ok]
  · simp only [mapError_eq_error, settles.error]

/-- A run over a list stops at the first item that fails. -/
theorem mapM {step : α → Except ε β} {items : List α} {passes : α → Prop} {fails : α → ε → Prop}
    (each : ∀ item ∈ items, Settles (step item) (passes item) (fails item)) :
    Settles (items.mapM step) (∀ item ∈ items, passes item) (FirstFails passes fails items) := by
  induction items with
  | nil => exact (of_ok []).congr (by simp) (by simp [FirstFails])
  | cons item rest ih =>
      obtain ⟨here, there⟩ := List.forall_mem_cons.mp each
      rw [List.mapM_cons]
      refine (here.bind fun value _ => (ih there).bind fun values _ =>
        of_ok (value :: values)).congr ?_ fun fault => ?_
      · simp
      · simp [firstFails_cons]

end Settles

/-! ## Lists of faults -/

/-- The fault there is when a condition holds. -/
def faultIf (condition : Prop) [Decidable condition] (fault : ε) : List ε :=
  if condition then [fault] else []

theorem faultIf_eq_nil_iff {condition : Prop} [Decidable condition] {fault : ε} :
    faultIf condition fault = [] ↔ ¬condition := by
  by_cases holds : condition <;> simp [faultIf, holds]

/-- The faults of each item, told from the items before it. -/
def faultsAlong (faultsOf : List α → α → List ε) : List α → List α → List ε
  | _, [] => []
  | before, item :: rest => faultsOf before item ++ faultsAlong faultsOf (before ++ [item]) rest

section Along

variable {faultsOf : List α → α → List ε} {clean : α → Prop} (nameOf : α → String)

/-- Items are without fault behind items of other names when their own names differ as well. -/
theorem faultsAlong_eq_nil_iff_of_nodup
    (each : ∀ before item, faultsOf before item = [] ↔ clean item ∧ nameOf item ∉ before.map nameOf)
    (before : List α) (distinct : (before.map nameOf).Nodup) (items : List α) :
    faultsAlong faultsOf before items = [] ↔
      (∀ item ∈ items, clean item) ∧ ((before ++ items).map nameOf).Nodup := by
  induction items generalizing before with
  | nil => simp [faultsAlong, distinct]
  | cons item rest ih =>
      have extended : ((before ++ [item]).map nameOf).Nodup ↔ nameOf item ∉ before.map nameOf := by
        rw [List.map_append, List.map_singleton, List.nodup_append]
        constructor
        · rintro ⟨-, -, apart⟩ member
          exact apart _ member _ List.mem_cons_self rfl
        · refine fun fresh => ⟨distinct, by simp, fun name member other here same => ?_⟩
          rw [List.mem_singleton.mp here] at same
          exact fresh (same ▸ member)
      have joined : before ++ item :: rest = before ++ [item] ++ rest := by simp
      rw [faultsAlong, List.append_eq_nil_iff, each, List.forall_mem_cons, joined]
      constructor
      · rintro ⟨⟨here, fresh⟩, following⟩
        obtain ⟨there, apart⟩ := (ih _ (extended.mpr fresh)).mp following
        exact ⟨⟨here, there⟩, apart⟩
      · rintro ⟨⟨here, there⟩, apart⟩
        have fresh := extended.mp
          (apart.sublist ((List.sublist_append_left _ rest).map nameOf))
        exact ⟨⟨here, fresh⟩, (ih _ (extended.mpr fresh)).mpr ⟨there, apart⟩⟩

/--
When an item is at fault for itself or for a name that an item before it has, no item is at fault
exactly when none is for itself and all names differ.
-/
theorem faultsAlong_eq_nil_iff
    (each : ∀ before item, faultsOf before item = [] ↔ clean item ∧ nameOf item ∉ before.map nameOf)
    (items : List α) :
    faultsAlong faultsOf [] items = [] ↔
      (∀ item ∈ items, clean item) ∧ (items.map nameOf).Nodup :=
  faultsAlong_eq_nil_iff_of_nodup nameOf each [] List.nodup_nil items

end Along

/-- A computation that is refused for the first of the faults that there are. -/
def Tells (outcome : Except ε α) (faults : List ε) : Prop :=
  Settles outcome (faults = []) fun fault => faults.head? = some fault

namespace Tells

variable {outcome : Except ε α} {faults more : List ε}

theorem of_ok (value : α) : Tells (.ok value : Except ε α) [] :=
  (Settles.of_ok value).congr (by simp) (by simp)

theorem of_error (flaw : ε) (more : List ε) : Tells (.error flaw : Except ε α) (flaw :: more) :=
  (Settles.of_error flaw).congr (by simp) (by simp [eq_comm])

theorem bind (first : Tells outcome faults) {next : α → Except ε β}
    (second : ∀ value, outcome = .ok value → Tells (next value) more) :
    Tells (outcome >>= next) (faults ++ more) := by
  refine (Settles.bind first second).congr List.append_eq_nil_iff.symm fun fault => ?_
  cases faults <;> simp

/-- A test that comes before a computation. -/
theorem forbid (tells : Tells outcome faults) {test condition : Prop} [Decidable test]
    [Decidable condition] (same : test ↔ condition) (flaw : ε) :
    Tells (if test then .error flaw else outcome) (faultIf condition flaw ++ faults) := by
  by_cases holds : condition
  · rw [if_pos (same.mpr holds), faultIf, if_pos holds]
    exact of_error flaw _
  · rw [if_neg (mt same.mp holds), faultIf, if_neg holds]
    exact tells

end Tells

end PackedTables.Outcome
