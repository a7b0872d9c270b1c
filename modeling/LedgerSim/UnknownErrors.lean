import LedgerSim.EnforcedConditions
import LedgerSim.MalformedData
import LedgerSim.ReferenceEnvironment

/-!
# When the catch-all handler runs

The checkers of the conditions read their arguments without testing them.
Together with the data that the earlier steps cannot read this decides when
`accept_new_block` answers `UNKNOWN`.
-/

namespace LedgerSim

open Except

variable (E : Environment)

/-! ## Checkers -/

/-- The arguments of a condition that the checker for `opcode` cannot read.
`assert_coin_consumed` walks through its arguments and only gets to one after
the ones before it were found in `removals`. -/
inductive UnreadableArguments (removals : List Bytes32) (opcode : Bytes)
    (arguments : List PyVal) : Prop
  | coinConsumed {before after : List PyVal} {argument : PyVal}
      (hopcode : opcode = ConditionOpcode.assertCoinConsumed.value)
      (harguments : arguments = before ++ argument :: after)
      (hbefore : ∀ v ∈ before, ∃ name ∈ removals, v = .bytes name.1)
      (h : argument.hashable = false)
  | myCoinId (hopcode : opcode = ConditionOpcode.assertMyCoinId.value)
      (h : arguments = [])
  | exceeds
      (hopcode : opcode = ConditionOpcode.assertBlockIndexExceeds.value ∨
        opcode = ConditionOpcode.assertBlockAgeExceeds.value ∨
        opcode = ConditionOpcode.assertTimeExceeds.value)
      (h : ∀ blob more, arguments ≠ .bytes blob :: more)

section Checkers

variable {E} {condition : Condition} {coin : Coin} {context : ConditionContext}

theorem assertCoinConsumed_unclassified_iff :
    Unclassified (assertCoinConsumed condition coin context) ↔
      ∃ before argument after,
        condition.arguments = before ++ argument :: after ∧
        (∀ v ∈ before, ∃ name ∈ context.removals, v = .bytes name.1) ∧
        argument.hashable = false := by
  unfold Unclassified assertCoinConsumed
  rw [failsWith_forM_iff]
  refine exists_congr fun before => exists_congr fun argument =>
    exists_congr fun after => and_congr_right fun _ => ?_
  refine and_congr ?_ ?_
  · have hbefore : assertCoinConsumed ⟨condition.opcode, before⟩ coin context =
        .ok () ↔ ∀ v ∈ before, ∃ name ∈ context.removals, v = .bytes name.1 :=
      assertCoinConsumed_ok_iff
    exact hbefore
  · cases argument with
    | bytes blob => simp [failsWith_raiseIf_iff, PyVal.hashable]
    | list items => simp [PyVal.hashable]
    | tuple left right =>
        dsimp only
        split_ifs with hhash
        · simp [hhash]
        · simp [hhash]

theorem assertMyCoinId_unclassified_iff :
    Unclassified (assertMyCoinId E condition coin context) ↔
      condition.arguments = [] := by
  unfold Unclassified assertMyCoinId Condition.argument
  cases condition.arguments with
  | nil => simp [bind, Except.bind]
  | cons argument more =>
      rw [ok_bind]
      cases argument with
      | bytes blob => simp [failsWith_raiseIf_iff]
      | list items => simp
      | tuple left right => simp

theorem assertExceeds_unclassified_iff {failure : Err}
    (hfailure : failure ≠ .unknown) {current offset : ℤ} :
    Unclassified (assertExceeds E failure current offset condition coin) ↔
      ∀ blob more, condition.arguments ≠ .bytes blob :: more := by
  unfold Unclassified assertExceeds Condition.argument
  cases condition.arguments with
  | nil => simp [bind, Except.bind]
  | cons argument more =>
      rw [ok_bind]
      cases argument with
      | bytes blob =>
          rw [PyVal.toInt, ok_bind, failsWith_raiseIf_iff]
          simp [hfailure]
      | list items => simp [PyVal.toInt, bind, Except.bind]
      | tuple left right => simp [PyVal.toInt, bind, Except.bind]

theorem assertBlockAgeExceeds_unclassified_iff {index : ℕ}
    (hrecord : context.confirmed E coin = some index) :
    Unclassified (assertBlockAgeExceeds E condition coin context) ↔
      ∀ blob more, condition.arguments ≠ .bytes blob :: more := by
  unfold ConditionContext.confirmed at hrecord
  unfold assertBlockAgeExceeds
  cases hget : context.coinToUnspent.get (coin.name E) with
  | none => simp [hget] at hrecord
  | some record =>
      cases record with
      | none => simp [hget] at hrecord
      | some unspent => exact assertExceeds_unclassified_iff (by simp)

/-- What a checker of the table cannot read. -/
theorem checker_unclassified_iff {index : ℕ}
    (hrecord : context.confirmed E coin = some index) {opcode : Bytes} :
    (∃ checker, conditionCheckerLookup E opcode = some checker ∧
        Unclassified (checker condition coin context)) ↔
      UnreadableArguments context.removals opcode condition.arguments := by
  unfold conditionCheckerLookup
  constructor
  · rintro ⟨checker, hchecker, h⟩
    split_ifs at hchecker with h₁ h₂ h₃ h₄ h₅
    · obtain rfl := Option.some.inj hchecker
      obtain ⟨_, _, _, harguments, hbefore, h⟩ :=
        assertCoinConsumed_unclassified_iff.mp h
      exact .coinConsumed h₁ harguments hbefore h
    · obtain rfl := Option.some.inj hchecker
      exact .myCoinId h₂ (assertMyCoinId_unclassified_iff.mp h)
    · obtain rfl := Option.some.inj hchecker
      exact .exceeds (.inl h₃)
        ((assertExceeds_unclassified_iff (by simp)).mp h)
    · obtain rfl := Option.some.inj hchecker
      exact .exceeds (.inr (.inl h₄))
        ((assertBlockAgeExceeds_unclassified_iff hrecord).mp h)
    · obtain rfl := Option.some.inj hchecker
      exact .exceeds (.inr (.inr h₅))
        ((assertExceeds_unclassified_iff (by simp)).mp h)
  · intro h
    cases h with
    | coinConsumed hopcode harguments hbefore h =>
        subst hopcode
        exact ⟨_, rfl, assertCoinConsumed_unclassified_iff.mpr
          ⟨_, _, _, harguments, hbefore, h⟩⟩
    | myCoinId hopcode h =>
        subst hopcode
        exact ⟨_, rfl, assertMyCoinId_unclassified_iff.mpr h⟩
    | exceeds hopcode h =>
        rcases hopcode with rfl | rfl | rfl
        · exact ⟨_, rfl, (assertExceeds_unclassified_iff (by simp)).mpr h⟩
        · exact ⟨_, rfl, (assertBlockAgeExceeds_unclassified_iff hrecord).mpr h⟩
        · exact ⟨_, rfl, (assertExceeds_unclassified_iff (by simp)).mpr h⟩

end Checkers

/-! ## Spends -/

/-- The conditions of a coin that are checked before one that cannot be
read. -/
structure UnreadableCondition (coin : Coin) (conditionsDict : ConditionsDict)
    (context : ConditionContext) where
  before : ConditionsDict
  opcode : Bytes
  passed : List Condition
  condition : Condition
  others : List Condition
  after : ConditionsDict
  conditionsDict_eq :
    conditionsDict = before ++ (opcode, passed ++ condition :: others) :: after
  before_ok : checkConditionsDict E coin before context = .ok ()
  passed_ok : checkConditionsDict E coin [(opcode, passed)] context = .ok ()
  unreadable :
    UnreadableArguments context.removals opcode condition.arguments

/-- A spend whose conditions or signature pairs cannot be read. -/
inductive UnreadableSpend (context : ConditionContext) (cpc : Cpc) : Prop
  | condition
      (h : Nonempty (UnreadableCondition E cpc.coin cpc.conditionsDict context))
  | keyPair {condition : Condition}
      (hchecked : checkConditionsDict E cpc.coin cpc.conditionsDict context =
        .ok ())
      (hcondition : condition ∈ cpc.conditionsDict.get .aggSig)
      (h : ¬ condition.ReadsAsKeyPair)

section Spends

variable {E} {coin : Coin} {context : ConditionContext} {index : ℕ}

theorem checkConditionsDict_singleton_ok_iff {opcode : Bytes}
    {conditions : List Condition} :
    checkConditionsDict E coin [(opcode, conditions)] context = .ok () ↔
      ∀ checker, conditionCheckerLookup E opcode = some checker →
        (conditions.forM fun condition => checker condition coin context) =
          .ok () := by
  unfold checkConditionsDict
  rw [forM_eq_ok_iff]
  simp only [List.mem_singleton, forall_eq]
  cases conditionCheckerLookup E opcode with
  | none => simp
  | some checker => simp

theorem checkConditionsDict_unclassified_iff
    (hrecord : context.confirmed E coin = some index)
    {conditionsDict : ConditionsDict} :
    Unclassified (checkConditionsDict E coin conditionsDict context) ↔
      Nonempty (UnreadableCondition E coin conditionsDict context) := by
  have hlookup : ∀ {opcode : Bytes} {condition : Condition} {checker},
      conditionCheckerLookup E opcode = some checker →
      (Unclassified (checker condition coin context) ↔
        UnreadableArguments context.removals opcode condition.arguments) := by
    intro opcode condition checker hchecker
    rw [← checker_unclassified_iff hrecord, hchecker]
    simp
  constructor
  · intro h
    unfold Unclassified checkConditionsDict at h
    obtain ⟨before, ⟨opcode, conditions⟩, after, hdict, hbefore, h⟩ :=
      failsWith_forM_iff.mp h
    dsimp only at h
    cases hchecker : conditionCheckerLookup E opcode with
    | none => simp [hchecker] at h
    | some checker =>
        rw [hchecker] at h
        obtain ⟨passed, condition, others, rfl, hpassed, h⟩ :=
          failsWith_forM_iff.mp h
        refine ⟨⟨before, opcode, passed, condition, others, after, hdict,
          hbefore, ?_, (hlookup hchecker).mp h⟩⟩
        rw [checkConditionsDict_singleton_ok_iff, hchecker]
        rintro checker' heq
        obtain rfl := Option.some.inj heq
        exact hpassed
  · rintro ⟨u⟩
    obtain ⟨checker, hchecker, h⟩ :=
      (checker_unclassified_iff hrecord).mpr u.unreadable
    have hpassed :=
      checkConditionsDict_singleton_ok_iff.mp u.passed_ok checker hchecker
    unfold Unclassified checkConditionsDict
    refine failsWith_forM_iff.mpr
      ⟨_, _, _, u.conditionsDict_eq, u.before_ok, ?_⟩
    dsimp only
    rw [hchecker]
    exact failsWith_forM_iff.mpr ⟨_, _, _, rfl, hpassed, h⟩

theorem checkSolutions_unclassified_iff {cpcList : List Cpc}
    (hrecords : ∀ cpc ∈ cpcList, ∃ index,
      context.confirmed E cpc.coin = some index) :
    Unclassified (checkSolutions E context cpcList) ↔
      ∃ before cpc after, cpcList = before ++ cpc :: after ∧
        (∃ pairs, checkSolutions E context before = .ok pairs) ∧
        UnreadableSpend E context cpc := by
  have hbefore : ∀ before : List Cpc,
      (∃ pairs, checkSolutions E context before = .ok pairs) ↔
        ∃ pairs, (before.mapM fun cpc => do
          checkConditionsDict E cpc.coin cpc.conditionsDict context
          hashKeyPairsForConditionsDict cpc.conditionsDict) = .ok pairs := by
    intro before
    constructor
    · rintro ⟨_, h⟩
      obtain ⟨pairs, hpairs, -⟩ := bind_eq_ok_iff.mp h
      exact ⟨pairs, hpairs⟩
    · rintro ⟨pairs, hpairs⟩
      exact ⟨pairs.flatten, bind_eq_ok hpairs rfl⟩
  simp only [hbefore]
  unfold Unclassified checkSolutions
  rw [failsWith_bind_iff, failsWith_mapM_iff]
  simp only [failsWith_ok_iff, and_false, exists_false, or_false]
  refine exists_congr fun before => exists_congr fun cpc =>
    exists_congr fun after => and_congr_right fun hlist => and_congr_right ?_
  intro _
  have hmem : cpc ∈ cpcList := by simp [hlist]
  obtain ⟨index, hrecord⟩ := hrecords cpc hmem
  rw [failsWith_bind_iff]
  constructor
  · rintro (h | ⟨_, hchecked, h⟩)
    · exact .condition ((checkConditionsDict_unclassified_iff hrecord).mp h)
    · obtain ⟨condition, hcondition, h⟩ := hashKeyPairs_unclassified_iff.mp h
      exact .keyPair hchecked hcondition h
  · intro h
    cases h with
    | condition h =>
        exact .inl ((checkConditionsDict_unclassified_iff hrecord).mpr h)
    | keyPair hchecked hcondition h =>
        exact .inr ⟨(), hchecked,
          hashKeyPairs_unclassified_iff.mpr ⟨_, hcondition, h⟩⟩

end Spends

/-! ## Blocks -/

/-- A datum that a body brings before a check that cannot read it. -/
inductive MalformedBody (tipIndex : ℕ) (body : Body)
    (hashPreimage : Bytes32 → Option Bytes)
    (unspentFor : Bytes32 → Option Unspent) (coinbaseReward timestamp : ℤ) :
    Prop
  | program (h : MalformedProgram E body.solutionProgram)
  | output {npcList : List Npc} {npc : Npc} {condition : Condition}
      (hnpcs : namePuzzleConditionsList E body.solutionProgram = .ok npcList)
      (hnpc : npc ∈ npcList)
      (hcondition : condition ∈ npc.conditionsDict.get .createCoin)
      (h : ¬ condition.ReadsAsCoin)
  | coin {npcList : List Npc} {outputs : List Coin} {name : Bytes32}
      (hcounted : CountedBody E body npcList outputs)
      (hname : name ∈ npcList.map Npc.coinName)
      (h : ∀ blob, overlayStorage E (bodyAdditions body outputs) hashPreimage
        name = some blob → blob.length < 64)
  | spend {npcList : List Npc} {outputs : List Coin} {before after : List Cpc}
      {cpc : Cpc}
      (hspendable : SpendableBody E tipIndex body hashPreimage unspentFor
        coinbaseReward npcList outputs (before ++ cpc :: after))
      (hbefore : ∃ pairs, checkSolutions E (bodyContext E tipIndex body
        unspentFor timestamp npcList outputs (before ++ cpc :: after)) before =
          .ok pairs)
      (h : UnreadableSpend E (bodyContext E tipIndex body unspentFor timestamp
        npcList outputs (before ++ cpc :: after)) cpc)

/-- The block's body has a blob that is no body, or brings a datum that cannot
be read. -/
inductive MalformedBlock (chainView : ChainView) (header : Header)
    (hashPreimage : Bytes32 → Option Bytes)
    (unspentFor : Bytes32 → Option Unspent) (coinbaseReward timestamp : ℤ) :
    Prop
  | blob {blob : Bytes} (hcached : header.bodyHash.cached = none)
      (hblob : hashPreimage header.bodyHash.hash = some blob)
      (hhash : E.stdHash blob = header.bodyHash.hash)
      (h : ¬ ∃ r, Body.parse E blob = .ok r)
  | body {body : Body}
      (hobj : header.bodyHash.obj E (Body.parse E) hashPreimage =
        .ok (some body))
      (h : MalformedBody E chainView.tipIndex body hashPreimage unspentFor
        coinbaseReward timestamp)

section Blocks

variable {E} {tipIndex : ℕ} {body : Body}
  {hashPreimage : Bytes32 → Option Bytes}
  {unspentFor : Bytes32 → Option Unspent} {coinbaseReward timestamp : ℤ}

/-- A coin that may be spent has a record that its age counts from. -/
theorem SpendableBody.exists_confirmed {npcList : List Npc}
    {outputs : List Coin} {cpcList : List Cpc}
    (h : SpendableBody E tipIndex body hashPreimage unspentFor coinbaseReward
      npcList outputs cpcList) {cpc : Cpc} (hcpc : cpc ∈ cpcList) :
    ∃ index, (bodyContext E tipIndex body unspentFor timestamp npcList outputs
      cpcList).confirmed E cpc.coin = some index := by
  have hspendable : cpc.coin ∈ bodyAdditions body outputs ∨
      ∃ unspent, unspentFor (cpc.coin.name E) = some unspent :=
    (h.spendable cpc hcpc).imp_right fun ⟨unspent, hrecord, _⟩ =>
      ⟨unspent, hrecord⟩
  obtain ⟨index, hindex⟩ := exists_confirmedIndex hspendable
  refine ⟨index, ?_⟩
  rw [← hindex]
  exact confirmed_eq_confirmedIndex hcpc hspendable _ _

/-- The records were collected for these coins, so no look-up fails. -/
theorem raises_checkRemovals {additions : List Coin} {cpcList : List Cpc} :
    RaisesCodes [.unknownUnspent, .doubleSpend]
      (cpcList.forM fun cpc => checkRemoval E tipIndex additions
        (bodyRecords E tipIndex additions unspentFor cpcList) cpc.coin) := by
  refine Raises.forM fun cpc hcpc => ?_
  unfold checkRemoval bodyRecords
  split_ifs
  · exact raises_ok _
  rw [coinToUnspent_get_of_mem E _ hcpc]
  split
  next h => simp at h
  next => exact raises_error (by simp)
  next =>
    split_ifs
    · exact raises_error (by simp)
    · exact raises_error (by simp)
    · exact raises_ok _

theorem BodyRefusal.malformed (hrun : E.RaisesEvalError)
    (hvalidate : ∀ pairs e,
      body.aggregatedSignature.validate E pairs ≠ .error e) {e : Exn}
    (h : BodyRefusal E tipIndex body hashPreimage unspentFor coinbaseReward
      timestamp e) (hcode : e.code = .unknown) :
    MalformedBody E tipIndex body hashPreimage unspentFor coinbaseReward
      timestamp := by
  cases h with
  | solutionProgram h =>
      exact .program ((namePuzzleConditionsList_unclassified_iff hrun).mp
        ⟨e, h, hcode⟩)
  | outputs hnpcs h =>
      obtain ⟨npc, hnpc, condition, hcondition, h⟩ :=
        (createdOutputs_unclassified_iff E).mp ⟨e, h, hcode⟩
      exact .output hnpcs hnpc hcondition h
  | amounts _ h =>
      have := RaisesCodes.mem (raises_checkAmounts _) h hcode
      simp at this
  | additions _ _ h =>
      have := RaisesCodes.mem (raises_checkCounter _ _) h hcode
      simp at this
  | removals _ _ _ h =>
      have := RaisesCodes.mem (raises_checkCounter _ _) h hcode
      simp at this
  | coins hcounted h =>
      obtain ⟨name, hname, h⟩ :=
        (resolveCoins_unclassified_iff E).mp ⟨e, h, hcode⟩
      exact .coin hcounted hname h
  | puzzleHashes _ h =>
      have := RaisesCodes.mem (raises_checkPuzzleHashes _) h hcode
      simp at this
  | spent _ _ h =>
      have := RaisesCodes.mem raises_checkRemovals h hcode
      simp at this
  | fees _ _ _ _ h => simp [h] at hcode
  | conditions hspendable h =>
      obtain ⟨before, cpc, after, rfl, hbefore, h⟩ :=
        (checkSolutions_unclassified_iff
          fun _ hcpc => hspendable.exists_confirmed hcpc).mp ⟨e, h, hcode⟩
      exact .spend hspendable hbefore h
  | validation _ _ h => exact absurd h (hvalidate _ e)
  | signature _ _ _ h => simp [h] at hcode

theorem MalformedBody.refusal (hrun : E.RaisesEvalError)
    (h : MalformedBody E tipIndex body hashPreimage unspentFor coinbaseReward
      timestamp) :
    ∃ e, BodyRefusal E tipIndex body hashPreimage unspentFor coinbaseReward
      timestamp e ∧ e.code = .unknown := by
  cases h with
  | program h =>
      obtain ⟨e, h, hcode⟩ :=
        (namePuzzleConditionsList_unclassified_iff hrun).mpr h
      exact ⟨e, .solutionProgram h, hcode⟩
  | output hnpcs hnpc hcondition h =>
      obtain ⟨e, h, hcode⟩ := (createdOutputs_unclassified_iff E).mpr
        ⟨_, hnpc, _, hcondition, h⟩
      exact ⟨e, .outputs hnpcs h, hcode⟩
  | coin hcounted hname h =>
      obtain ⟨e, h, hcode⟩ :=
        (resolveCoins_unclassified_iff E).mpr ⟨_, hname, h⟩
      exact ⟨e, .coins hcounted h, hcode⟩
  | spend hspendable hbefore h =>
      obtain ⟨e, h, hcode⟩ := (checkSolutions_unclassified_iff
        fun _ hcpc => hspendable.exists_confirmed hcpc).mpr
          ⟨_, _, _, rfl, hbefore, h⟩
      exact ⟨e, .conditions hspendable h, hcode⟩

theorem bodyPointer_eq_error_iff {pointer : HashPointer Body} :
    (∃ e, pointer.obj E (Body.parse E) hashPreimage = .error e) ↔
      ∃ blob, pointer.cached = none ∧ hashPreimage pointer.hash = some blob ∧
        E.stdHash blob = pointer.hash ∧ ¬ ∃ r, Body.parse E blob = .ok r := by
  unfold HashPointer.obj Parser.fromBytes
  cases pointer.cached with
  | some v => simp
  | none =>
      cases hashPreimage pointer.hash with
      | none => simp
      | some blob =>
          by_cases hhash : E.stdHash blob = pointer.hash
          · simp only [hhash, if_true, Option.some.injEq, true_and,
              exists_eq_left']
            cases Body.parse E blob with
            | ok r => simp [Except.map]
            | error e => simp [Except.map]
          · simp [hhash]

theorem acceptNewBlock_unclassified_iff (hrun : E.RaisesEvalError)
    {chainView : ChainView} {header : Header}
    (hextends : header.previousHash.hash = chainView.tipHash.hash)
    {hashPreimage : Bytes32 → Option Bytes}
    {unspentFor : Bytes32 → Option Unspent} {coinbaseReward timestamp : ℤ}
    (hvalidate : ∀ body,
      header.bodyHash.obj E (Body.parse E) hashPreimage = .ok (some body) →
        ∀ pairs e, body.aggregatedSignature.validate E pairs ≠ .error e) :
    Unclassified (acceptNewBlock E chainView header hashPreimage unspentFor
        coinbaseReward timestamp) ↔
      MalformedBlock E chainView header hashPreimage unspentFor coinbaseReward
        timestamp := by
  constructor
  · rintro ⟨e, he, hcode⟩
    cases (acceptNewBlock_eq_error_iff E).mp he with
    | notExtending hother _ => exact absurd hextends hother
    | pointer _ hobj _ =>
        obtain ⟨blob, hcached, hblob, hhash, h⟩ :=
          bodyPointer_eq_error_iff.mp ⟨_, hobj⟩
        exact .blob hcached hblob hhash h
    | missing _ _ h => simp [h] at hcode
    | body _ hobj hrefusal h =>
        have hinner := congrArg Exn.code h
        rw [Exn.code_classified, hcode] at hinner
        exact .body hobj (hrefusal.malformed hrun (hvalidate _ hobj) hinner)
  · intro h
    cases h with
    | blob hcached hblob hhash h =>
        obtain ⟨e, he⟩ := bodyPointer_eq_error_iff.mpr
          ⟨_, hcached, hblob, hhash, h⟩
        have hcode := raises_obj E (raises_bodyParse E) _ _ e he
        refine ⟨e.classified, ?_, by simpa using hcode⟩
        exact (acceptNewBlock_eq_error_iff E).mpr (.pointer hextends he rfl)
    | body hobj h =>
        obtain ⟨e, hrefusal, hcode⟩ := h.refusal hrun
        refine ⟨e.classified, ?_, by simpa using hcode⟩
        exact (acceptNewBlock_eq_error_iff E).mpr
          (.body hextends hobj hrefusal rfl)

end Blocks

namespace Reference

theorem environment_raisesEvalError : environment.RaisesEvalError := by
  intro program args e h
  simp only [environment, runProgram] at h
  split at h
  · simp at h
  · exact (Except.error.inj h).symm

theorem validate_ne_error (self : BLSSignature) (pairs : List AggsigPair)
    (e : Exn) : self.validate environment pairs ≠ .error e := by
  intro h
  cases pairs with
  | nil => simp at h
  | cons pair rest =>
      have hkeys : ∃ keys, (pair :: rest).mapM (fun pair =>
          (environment.publicKeyFromBytes pair.publicKey).mapError
            Exn.raised) = .ok keys := exists_mapM_eq_ok fun _ _ => ⟨_, rfl⟩
      obtain ⟨keys, hkeys⟩ := hkeys
      rcases bind_eq_error_iff.mp h with hfailed | ⟨keys', -, h⟩
      · rw [hkeys] at hfailed
        simp at hfailed
      · dsimp only at h
        split at h
        · simp at h
        · simp at h

/-- A block that removes a coin which no storage knows. -/
def strangeBlock : Header :=
  header ledgerGenesisHash <| body
    ⟨indexHash 1, SizedBytes.fill 32 3, blockReward⟩
    ⟨indexHash 1, SizedBytes.fill 32 4, 0⟩ [spend (SizedBytes.fill 32 9) []]

def strangeOutcome : Except Exn (List Coin × List Bytes32) :=
  acceptNewBlock environment (genesisView 0) strangeBlock (fun _ => none)
    (fun _ => none) blockReward 5

theorem strangeOutcome_code :
    (match strangeOutcome with
      | .ok _ => none
      | .error e => some e.code) = some Err.unknown := by
  decide +kernel

end Reference

end LedgerSim
