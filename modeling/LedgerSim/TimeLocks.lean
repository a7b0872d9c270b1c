import LedgerSim.AcceptedBlock
import LedgerSim.ConditionChecks
import LedgerSim.ReferenceEnvironment

/-!
# Conditions in a later context

A time lock that has opened stays open, and a coin that is consumed with others
is still consumed when more spends join them.  What fails for another reason,
such as a missing argument, fails in both contexts.
-/

namespace LedgerSim

variable {E : Environment}

/-- The second context checks against the same records, at no earlier index and
time, with at least the removals of the first. -/
structure ConditionContext.Precedes (context later : ConditionContext) :
    Prop where
  blockIndex : context.blockIndex ≤ later.blockIndex
  creationTime : context.creationTime ≤ later.creationTime
  removals : context.removals ⊆ later.removals
  coinToUnspent : later.coinToUnspent = context.coinToUnspent

/-! ## Single checkers -/

section Checkers

variable {condition : Condition} {coin : Coin}
  {context later : ConditionContext}

theorem assertCoinConsumed_of_subset
    (hremovals : context.removals ⊆ later.removals)
    (h : assertCoinConsumed condition coin context = .ok ()) :
    assertCoinConsumed condition coin later = .ok () := by
  rw [assertCoinConsumed_ok_iff] at h ⊢
  intro argument hargument
  obtain ⟨name, hname, heq⟩ := h argument hargument
  exact ⟨name, hremovals hname, heq⟩

theorem assertExceeds_of_le {failure : Err} {current current' offset : ℤ}
    (hle : current ≤ current')
    (h : assertExceeds E failure current offset condition coin = .ok ()) :
    assertExceeds E failure current' offset condition coin = .ok () := by
  rw [assertExceeds_ok_iff] at h ⊢
  obtain ⟨blob, more, harguments, hlt⟩ := h
  exact ⟨blob, more, harguments, hlt.trans_le hle⟩

theorem assertBlockAgeExceeds_of_le
    (hindex : context.blockIndex ≤ later.blockIndex)
    (hconfirmed : later.confirmed E coin = context.confirmed E coin)
    (h : assertBlockAgeExceeds E condition coin context = .ok ()) :
    assertBlockAgeExceeds E condition coin later = .ok () := by
  rw [assertBlockAgeExceeds_ok_iff] at h ⊢
  rw [hconfirmed]
  obtain ⟨index, hrecord, blob, more, harguments, hlt⟩ := h
  have hlt' : E.intFromBytes blob + index < later.blockIndex := by omega
  exact ⟨index, hrecord, blob, more, harguments, hlt'⟩

/-- Of the records only the index that the coin's age counts from matters. -/
theorem checker_of_later
    (hindex : context.blockIndex ≤ later.blockIndex)
    (htime : context.creationTime ≤ later.creationTime)
    (hremovals : context.removals ⊆ later.removals)
    (hconfirmed : later.confirmed E coin = context.confirmed E coin)
    {conditionId : Bytes}
    {checker : Condition → Coin → ConditionContext → Except Exn Unit}
    (hchecker : conditionCheckerLookup E conditionId = some checker)
    (h : checker condition coin context = .ok ()) :
    checker condition coin later = .ok () := by
  unfold conditionCheckerLookup at hchecker
  split_ifs at hchecker
  case pos =>
    rw [← Option.some.inj hchecker] at h ⊢
    exact assertCoinConsumed_of_subset hremovals h
  case pos =>
    rw [← Option.some.inj hchecker] at h ⊢
    exact h
  case pos =>
    rw [← Option.some.inj hchecker] at h ⊢
    exact assertExceeds_of_le (Int.ofNat_le.mpr hindex) h
  case pos =>
    rw [← Option.some.inj hchecker] at h ⊢
    exact assertBlockAgeExceeds_of_le hindex hconfirmed h
  case pos =>
    rw [← Option.some.inj hchecker] at h ⊢
    exact assertExceeds_of_le htime h

theorem checkConditionsDict_of_later
    (hindex : context.blockIndex ≤ later.blockIndex)
    (htime : context.creationTime ≤ later.creationTime)
    (hremovals : context.removals ⊆ later.removals)
    (hconfirmed : later.confirmed E coin = context.confirmed E coin)
    {conditionsDict : ConditionsDict}
    (h : checkConditionsDict E coin conditionsDict context = .ok ()) :
    checkConditionsDict E coin conditionsDict later = .ok () := by
  have hgroups := Except.forM_eq_ok_iff.mp h
  apply Except.forM_eq_ok_iff.mpr
  rintro ⟨conditionId, conditions⟩ hmem
  have hconditions := hgroups _ hmem
  dsimp only at hconditions ⊢
  cases hlookup : conditionCheckerLookup E conditionId with
  | none => rfl
  | some checker =>
      rw [hlookup] at hconditions
      apply Except.forM_eq_ok_iff.mpr
      intro condition hcondition
      have hpassed := Except.forM_eq_ok_iff.mp hconditions condition hcondition
      exact checker_of_later hindex htime hremovals hconfirmed hlookup hpassed

end Checkers

/-! ## All spends -/

theorem checkSolutions_append {context : ConditionContext}
    {spends others : List Cpc} {pairs pairs' : List AggsigPair}
    (h : checkSolutions E context spends = .ok pairs)
    (h' : checkSolutions E context others = .ok pairs') :
    checkSolutions E context (spends ++ others) = .ok (pairs ++ pairs') := by
  obtain ⟨lists, hlists, h⟩ := Except.bind_eq_ok_iff.mp h
  obtain ⟨lists', hlists', h'⟩ := Except.bind_eq_ok_iff.mp h'
  have hall := Except.mapM_append_eq_ok_iff.mpr
    ⟨lists, lists', hlists, hlists', rfl⟩
  apply Except.bind_eq_ok hall
  rw [List.flatten_append, Except.ok.inj h, Except.ok.inj h']

theorem ConditionContext.Precedes.confirmed_eq
    {context later : ConditionContext} (hlater : context.Precedes later)
    (coin : Coin) : later.confirmed E coin = context.confirmed E coin := by
  unfold ConditionContext.confirmed
  rw [hlater.coinToUnspent]

theorem checkSolutions_of_precedes {context later : ConditionContext}
    (hlater : context.Precedes later) {spends : List Cpc}
    {pairs : List AggsigPair} (h : checkSolutions E context spends = .ok pairs) :
    checkSolutions E later spends = .ok pairs := by
  rw [checkSolutions_split_ok_iff] at h ⊢
  apply And.intro _ h.2
  intro cpc hcpc
  exact checkConditionsDict_of_later hlater.blockIndex hlater.creationTime
    hlater.removals (hlater.confirmed_eq cpc.coin) (h.1 cpc hcpc)

/-- What passes once passes later, also when other spends have joined. -/
theorem checkConditionsDict_monotone {context later : ConditionContext}
    (hlater : context.Precedes later) :
    (∀ (coin : Coin) (conditionsDict : ConditionsDict),
      checkConditionsDict E coin conditionsDict context = .ok () →
        checkConditionsDict E coin conditionsDict later = .ok ()) ∧
    ∀ (spends others : List Cpc) (pairs pairs' : List AggsigPair),
      checkSolutions E context spends = .ok pairs →
        checkSolutions E later others = .ok pairs' →
          checkSolutions E later (spends ++ others) =
            .ok (pairs ++ pairs') := by
  constructor
  · intro coin conditionsDict h
    exact checkConditionsDict_of_later hlater.blockIndex hlater.creationTime
      hlater.removals (hlater.confirmed_eq coin) h
  · intro spends others pairs pairs' h h'
    have hspends := checkSolutions_of_precedes hlater h
    exact checkSolutions_append hspends h'

namespace Reference

/-! A coin confirmed in block 1, with locks that open in block 3 at second 6. -/

def lockedCoin : Coin :=
  coinbaseCoin []

def locks : ConditionsDict :=
  [([52], [⟨[52], [.bytes (lockedCoin.name environment).1]⟩]),
    ([54], [⟨[54], [.bytes [5]]⟩]),
    ([56], [⟨[56], [.bytes []]⟩, ⟨[56], [.bytes [1]]⟩]),
    ([60], [⟨[60], []⟩])]

def lockContext (blockIndex : ℕ) (creationTime : ℤ)
    (joined : List Bytes32) : ConditionContext :=
  ⟨blockIndex, lockedCoin.name environment :: joined,
    (Dict.empty).set (lockedCoin.name environment) (some ⟨1, 0⟩), creationTime⟩

theorem lockContext_precedes : (lockContext 3 6 []).Precedes
    (lockContext 4 60 [SizedBytes.fill 32 9]) where
  blockIndex := by decide
  creationTime := by decide
  removals := List.cons_subset_cons _ (List.nil_subset _)
  coinToUnspent := rfl

end Reference

open Reference in
theorem checkConditionsDict_monotone_locks :
    checkConditionsDict environment lockedCoin locks
      (lockContext 4 60 [SizedBytes.fill 32 9]) = .ok () :=
  (checkConditionsDict_monotone lockContext_precedes).1 lockedCoin locks
    (Except.toOption_eq_some_iff.mp (by decide +kernel))

end LedgerSim
