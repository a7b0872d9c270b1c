import LedgerSim.Conditions

/-!
# What the condition checkers enforce

The checkers are found through a table that skips what it does not know, and
they walk a dictionary that was filled from the list of conditions.  Both are
undone here: the dictionary passes exactly when every condition of the list
holds, and a consumer of one opcode sees its conditions in the order of the
list.
-/

namespace LedgerSim

variable (E : Environment)

/-! ## Grouping by opcode -/

private theorem lookup_map_opcode (keys : List Bytes)
    (value : Bytes → List Condition) (key : Bytes) :
    (keys.map fun k => (k, value k)).lookup key =
      if key ∈ keys then some (value key) else none := by
  induction keys with
  | nil => rfl
  | cons k rest ih =>
      rw [List.map_cons, List.lookup_cons, ih]
      by_cases hkey : key = k
      · subst key
        simp
      · have hbeq : (key == k) = false := by simpa using hkey
        simp [hbeq, hkey]

theorem mem_conditionsByOpcode_iff {conditions : List Condition}
    {opcode : Bytes} {group : List Condition} :
    (opcode, group) ∈ conditionsByOpcode conditions ↔
      opcode ∈ conditions.map Condition.opcode ∧
        group = conditions.filter fun c => c.opcode = opcode := by
  unfold conditionsByOpcode
  simp only [List.mem_map, List.mem_insertionSort, List.mem_dedup,
    Prod.mk.injEq]
  constructor
  · rintro ⟨key, hkey, rfl, rfl⟩
    exact ⟨hkey, rfl⟩
  · rintro ⟨hkey, rfl⟩
    exact ⟨opcode, hkey, rfl, rfl⟩

/-- No condition is lost, repeated or moved by the grouping. -/
theorem get_conditionsByOpcode (conditions : List Condition)
    (opcode : ConditionOpcode) :
    (conditionsByOpcode conditions).get opcode =
      conditions.filter fun c => c.opcode = opcode.value := by
  unfold ConditionsDict.get conditionsByOpcode
  rw [lookup_map_opcode]
  by_cases hmem : opcode.value ∈ conditions.map Condition.opcode
  · simp only [List.mem_insertionSort, List.mem_dedup, hmem, if_true,
      Option.getD_some]
  · simp only [List.mem_insertionSort, List.mem_dedup, hmem, if_false,
      Option.getD_none]
    symm
    rw [List.filter_eq_nil_iff]
    intro condition hcondition hopcode
    have hkey : condition.opcode = opcode.value := by simpa using hopcode
    exact hmem (List.mem_map.mpr ⟨condition, hcondition, hkey⟩)

/-! ## Single checkers -/

theorem assertCoinConsumed_ok_iff {condition : Condition} {coin : Coin}
    {context : ConditionContext} :
    assertCoinConsumed condition coin context = .ok () ↔
      ∀ argument ∈ condition.arguments,
        ∃ name ∈ context.removals, argument = .bytes name.1 := by
  unfold assertCoinConsumed
  rw [Except.forM_eq_ok_iff]
  refine forall₂_congr fun argument _ => ?_
  cases argument with
  | bytes blob =>
      simp only [PyVal.bytes.injEq]
      rw [Except.raiseIf_eq_ok_iff, not_not, List.mem_map]
      simp only [eq_comm]
  | list items => simp [PyVal.hashable]
  | tuple left right =>
      simp only [reduceCtorEq, and_false, exists_false, iff_false]
      split_ifs <;> simp

theorem assertMyCoinId_ok_iff {condition : Condition} {coin : Coin}
    {context : ConditionContext} :
    assertMyCoinId E condition coin context = .ok () ↔
      ∃ more, condition.arguments = .bytes (coin.name E).1 :: more := by
  unfold assertMyCoinId Condition.argument
  cases condition.arguments with
  | nil => simp [bind, Except.bind]
  | cons argument more =>
      cases argument with
      | bytes blob =>
          simp only [bind, Except.bind, List.cons.injEq, PyVal.bytes.injEq,
            exists_and_left, exists_eq', and_true]
          rw [Except.raiseIf_eq_ok_iff, not_not, eq_comm]
      | list items => simp [bind, Except.bind]
      | tuple left right => simp [bind, Except.bind]

theorem assertExceeds_ok_iff {failure : Err} {current offset : ℤ}
    {condition : Condition} {coin : Coin} :
    assertExceeds E failure current offset condition coin = .ok () ↔
      ∃ blob more, condition.arguments = .bytes blob :: more ∧
        E.intFromBytes blob + offset < current := by
  unfold assertExceeds Condition.argument
  cases condition.arguments with
  | nil => simp [bind, Except.bind]
  | cons argument more =>
      cases argument with
      | bytes blob =>
          simp only [bind, Except.bind, PyVal.toInt, List.cons.injEq,
            PyVal.bytes.injEq]
          rw [Except.raiseIf_eq_ok_iff, not_le]
          constructor
          · intro h
            exact ⟨blob, more, ⟨rfl, rfl⟩, h⟩
          · rintro ⟨_, _, ⟨rfl, rfl⟩, h⟩
            exact h
      | list items => simp [bind, Except.bind, PyVal.toInt]
      | tuple left right => simp [bind, Except.bind, PyVal.toInt]

/-- The index that a record counts a coin's age from. -/
def ConditionContext.confirmed (context : ConditionContext) (coin : Coin) :
    Option ℕ :=
  (context.coinToUnspent.get (coin.name E)).join.map
    Unspent.confirmedBlockIndex

theorem assertBlockAgeExceeds_ok_iff {condition : Condition} {coin : Coin}
    {context : ConditionContext} :
    assertBlockAgeExceeds E condition coin context = .ok () ↔
      ∃ index, context.confirmed E coin = some index ∧
        ∃ blob more, condition.arguments = .bytes blob :: more ∧
          E.intFromBytes blob + index < context.blockIndex := by
  unfold assertBlockAgeExceeds ConditionContext.confirmed
  cases context.coinToUnspent.get (coin.name E) with
  | none => simp
  | some record =>
      cases record with
      | none =>
          simp only [Option.join_some, Option.map_none, reduceCtorEq,
            false_and, exists_false, iff_false]
          intro h
          obtain ⟨_, _, h⟩ := Except.bind_eq_ok_iff.mp h
          obtain ⟨_, _, h⟩ := Except.bind_eq_ok_iff.mp h
          simp at h
      | some unspent =>
          simp only [Option.join_some, Option.map_some, Option.some.injEq,
            exists_eq_left']
          exact assertExceeds_ok_iff E

/-! ## All conditions of a coin -/

/-- What a condition asserts about the coin that reveals it, in a block at
`blockIndex` that removes `removals` and is created at `time`.  `confirmed` is
the index that the coin's age counts from.  A condition with another opcode
asserts nothing. -/
structure Condition.Holds (removals : List Bytes32) (blockIndex : ℕ)
    (confirmed : Option ℕ) (time : ℤ) (coin : Coin) (condition : Condition) :
    Prop where
  coinConsumed : condition.opcode = ConditionOpcode.assertCoinConsumed.value →
    ∀ argument ∈ condition.arguments,
      ∃ name ∈ removals, argument = .bytes name.1
  myCoinId : condition.opcode = ConditionOpcode.assertMyCoinId.value →
    ∃ more, condition.arguments = .bytes (coin.name E).1 :: more
  blockIndexExceeds :
    condition.opcode = ConditionOpcode.assertBlockIndexExceeds.value →
      ∃ blob more, condition.arguments = .bytes blob :: more ∧
        E.intFromBytes blob < blockIndex
  blockAgeExceeds :
    condition.opcode = ConditionOpcode.assertBlockAgeExceeds.value →
      ∃ index, confirmed = some index ∧
        ∃ blob more, condition.arguments = .bytes blob :: more ∧
          E.intFromBytes blob + index < blockIndex
  timeExceeds : condition.opcode = ConditionOpcode.assertTimeExceeds.value →
    ∃ blob more, condition.arguments = .bytes blob :: more ∧
      E.intFromBytes blob < time

def ConditionContext.Permits (context : ConditionContext) (coin : Coin)
    (condition : Condition) : Prop :=
  condition.Holds E context.removals context.blockIndex
    (context.confirmed E coin) context.creationTime coin

/-- The checker that the table has for a condition passes exactly when the
condition holds. -/
theorem checker_ok_iff {condition : Condition} {coin : Coin}
    {context : ConditionContext} :
    (∀ checker, conditionCheckerLookup E condition.opcode = some checker →
        checker condition coin context = .ok ()) ↔
      context.Permits E coin condition := by
  unfold conditionCheckerLookup ConditionContext.Permits
  constructor
  · intro h
    constructor
    · intro hopcode
      rw [hopcode] at h
      exact assertCoinConsumed_ok_iff.mp (h _ rfl)
    · intro hopcode
      rw [hopcode] at h
      exact (assertMyCoinId_ok_iff E).mp (h _ rfl)
    · intro hopcode
      rw [hopcode] at h
      simpa using (assertExceeds_ok_iff E).mp (h _ rfl)
    · intro hopcode
      rw [hopcode] at h
      exact (assertBlockAgeExceeds_ok_iff E).mp (h _ rfl)
    · intro hopcode
      rw [hopcode] at h
      simpa using (assertExceeds_ok_iff E).mp (h _ rfl)
  · intro h checker hchecker
    split_ifs at hchecker with h₁ h₂ h₃ h₄ h₅
    · obtain rfl := Option.some.inj hchecker
      exact assertCoinConsumed_ok_iff.mpr (h.coinConsumed h₁)
    · obtain rfl := Option.some.inj hchecker
      exact (assertMyCoinId_ok_iff E).mpr (h.myCoinId h₂)
    · obtain rfl := Option.some.inj hchecker
      exact (assertExceeds_ok_iff E).mpr (by simpa using h.blockIndexExceeds h₃)
    · obtain rfl := Option.some.inj hchecker
      exact (assertBlockAgeExceeds_ok_iff E).mpr (h.blockAgeExceeds h₄)
    · obtain rfl := Option.some.inj hchecker
      exact (assertExceeds_ok_iff E).mpr (by simpa using h.timeExceeds h₅)

theorem checkConditionsDict_ok_iff {coin : Coin} {conditions : List Condition}
    {context : ConditionContext} :
    checkConditionsDict E coin (conditionsByOpcode conditions) context =
        .ok () ↔
      ∀ condition ∈ conditions, context.Permits E coin condition := by
  unfold checkConditionsDict
  rw [Except.forM_eq_ok_iff]
  constructor
  · intro h condition hmem
    rw [← checker_ok_iff]
    intro checker hchecker
    have hgroup := h (condition.opcode, _)
      (mem_conditionsByOpcode_iff.mpr
        ⟨List.mem_map_of_mem hmem, rfl⟩)
    simp only [hchecker] at hgroup
    exact Except.forM_eq_ok_iff.mp hgroup condition
      (List.mem_filter.mpr ⟨hmem, by simp⟩)
  · rintro h ⟨opcode, group⟩ hentry
    obtain ⟨-, rfl⟩ := mem_conditionsByOpcode_iff.mp hentry
    dsimp only
    cases hlookup : conditionCheckerLookup E opcode with
    | none => rfl
    | some checker =>
        refine Except.forM_eq_ok_iff.mpr fun condition hgroup => ?_
        have hopcode : condition.opcode = opcode := by
          simpa using List.of_mem_filter hgroup
        subst opcode
        have hmem := List.mem_of_mem_filter hgroup
        exact (checker_ok_iff E).mpr (h condition hmem) checker hlookup

end LedgerSim
