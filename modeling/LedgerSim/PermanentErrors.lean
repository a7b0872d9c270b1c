import LedgerSim.BlockSpends
import LedgerSim.EnforcedConditions
import LedgerSim.RefusedBlock

/-!
# Which errors are permanent

A positive code says that a block can never become valid.  The checks only ask
the storage for blobs, so more blobs change nothing once the coins are
resolved, and only one checker reads the clock.
-/

namespace LedgerSim

open Except

variable (E : Environment)

/-! ## More blobs -/

/-- `more` answers whatever `less` answers, with the same blob. -/
def Extends {α β : Type} (less more : α → Option β) : Prop :=
  ∀ key value, less key = some value → more key = some value

theorem Extends.overlay {α β : Type} {less more : α → Option β}
    (h : Extends less more) (top : α → Option β) :
    Extends (LedgerSim.overlay top less) (LedgerSim.overlay top more) := by
  intro key value hvalue
  cases htop : top key with
  | some found =>
      rw [overlay_of_top htop] at hvalue ⊢
      exact hvalue
  | none =>
      rw [overlay_of_top_none htop] at hvalue ⊢
      exact h key value hvalue

section Storage

variable {E} {less more : Bytes32 → Option Bytes}

theorem HashPointer.obj_extends {α : Type} {parse : Parser α}
    {p : HashPointer α} {v : α} (hextends : Extends less more)
    (h : p.obj E parse less = .ok (some v)) :
    p.obj E parse more = .ok (some v) := by
  unfold HashPointer.obj at h ⊢
  cases hcached : p.cached with
  | some cached =>
      rw [hcached] at h
      exact h
  | none =>
      rw [hcached] at h
      dsimp only at h ⊢
      cases hblob : less p.hash with
      | none => simp [hblob] at h
      | some blob =>
          rw [hblob] at h
          rw [hextends _ _ hblob]
          exact h

theorem resolveCoin_extends {npc : Npc} {cpc : Cpc}
    (hextends : Extends less more) (h : resolveCoin E less npc = .ok cpc) :
    resolveCoin E more npc = .ok cpc := by
  obtain ⟨coin, hcoin, hcpc⟩ := bind_eq_ok_iff.mp h
  refine bind_eq_ok ?_ hcpc
  unfold coinPointerObj at hcoin ⊢
  cases hblob : less npc.coinName with
  | none => simp [hblob] at hcoin
  | some blob =>
      rw [hblob] at hcoin
      rw [hextends _ _ hblob]
      exact hcoin

theorem ResolvedBody.extends {body : Body} {npcList : List Npc}
    {outputs : List Coin} {cpcList : List Cpc} (hextends : Extends less more)
    (h : ResolvedBody E body less npcList outputs cpcList) :
    ResolvedBody E body more npcList outputs cpcList := by
  refine ⟨h.toCountedBody, mapM_eq_ok_iff.mpr ?_⟩
  refine (mapM_eq_ok_iff.mp h.resolved).imp fun npc cpc hcpc => ?_
  exact resolveCoin_extends (hextends.overlay _) hcpc

theorem SpendableBody.extends {tipIndex : ℕ} {body : Body}
    {unspentFor : Bytes32 → Option Unspent} {coinbaseReward : ℤ}
    {npcList : List Npc} {outputs : List Coin} {cpcList : List Cpc}
    (hextends : Extends less more)
    (h : SpendableBody E tipIndex body less unspentFor coinbaseReward npcList
      outputs cpcList) :
    SpendableBody E tipIndex body more unspentFor coinbaseReward npcList
      outputs cpcList :=
  ⟨h.toResolvedBody.extends hextends, h.puzzleHash, h.spendable, h.fees⟩

/-- A body has one list of spends and one of outputs. -/
theorem ListedBody.unique {body : Body} {npcList npcList' : List Npc}
    {outputs outputs' : List Coin} (h : ListedBody E body npcList outputs)
    (h' : ListedBody E body npcList' outputs') :
    npcList = npcList' ∧ outputs = outputs' := by
  obtain rfl := Except.ok.inj (h.npcList_eq.symm.trans h'.npcList_eq)
  exact ⟨rfl, Except.ok.inj (h.outputs_eq.symm.trans h'.outputs_eq)⟩

theorem ResolvedBody.unique {body : Body} {npcList npcList' : List Npc}
    {outputs outputs' : List Coin} {cpcList cpcList' : List Cpc}
    (h : ResolvedBody E body less npcList outputs cpcList)
    (h' : ResolvedBody E body less npcList' outputs' cpcList') :
    npcList = npcList' ∧ outputs = outputs' ∧ cpcList = cpcList' := by
  obtain ⟨rfl, rfl⟩ := h.toListedBody.unique h'.toListedBody
  exact ⟨rfl, rfl, Except.ok.inj (h.resolved.symm.trans h'.resolved)⟩

end Storage

/-! ## Conditions and the clock -/

/-- All conditions in a dictionary. -/
def ConditionsDict.conditions (d : ConditionsDict) : List Condition :=
  d.flatMap Prod.snd

theorem mem_conditions_conditionsByOpcode_iff {conditions : List Condition}
    {condition : Condition} :
    condition ∈ (conditionsByOpcode conditions).conditions ↔
      condition ∈ conditions := by
  unfold ConditionsDict.conditions
  rw [List.mem_flatMap]
  constructor
  · rintro ⟨⟨opcode, group⟩, hentry, hmem⟩
    obtain ⟨-, rfl⟩ := mem_conditionsByOpcode_iff.mp hentry
    exact List.mem_of_mem_filter hmem
  · intro hmem
    refine ⟨(condition.opcode, _), mem_conditionsByOpcode_iff.mpr
      ⟨List.mem_map_of_mem hmem, rfl⟩, ?_⟩
    exact List.mem_filter.mpr ⟨hmem, by simp⟩

/-- A dictionary that was filled from a list of conditions. -/
def ConditionsDict.Grouped (d : ConditionsDict) : Prop :=
  ∃ conditions, conditionsByOpcode conditions = d

def Condition.IsTimeLock (condition : Condition) : Prop :=
  condition.opcode = ConditionOpcode.assertTimeExceeds.value

/-- What the coins' conditions assert without the clock.  A time lock only has
to name a bound. -/
structure TimelessConditions (context : ConditionContext)
    (cpcList : List Cpc) : Prop where
  permits : ∀ cpc ∈ cpcList, ∀ condition ∈ cpc.conditionsDict.conditions,
    ¬ condition.IsTimeLock → context.Permits E cpc.coin condition
  readable : ∀ cpc ∈ cpcList, ∀ condition ∈ cpc.conditionsDict.conditions,
    condition.IsTimeLock → ∃ blob more, condition.arguments = .bytes blob :: more

/-- A coin's puzzle demands a block that is created after `bound`. -/
def LockedUntil (cpcList : List Cpc) (bound : ℤ) : Prop :=
  ∃ cpc ∈ cpcList, ∃ condition ∈ cpc.conditionsDict.conditions,
    condition.IsTimeLock ∧ ∃ blob more,
      condition.arguments = .bytes blob :: more ∧ E.intFromBytes blob = bound

section Clock

variable {E} {context : ConditionContext} {cpcList : List Cpc}

theorem ConditionContext.permits_of_not_timeLock {coin : Coin}
    {condition : Condition} (hlock : ¬ condition.IsTimeLock) (time : ℤ) :
    ({ context with creationTime := time } : ConditionContext).Permits E coin
        condition ↔
      context.Permits E coin condition := by
  constructor
  · intro h
    exact ⟨h.coinConsumed, h.myCoinId, h.blockIndexExceeds, h.blockAgeExceeds,
      fun hopcode => absurd hopcode hlock⟩
  · intro h
    exact ⟨h.coinConsumed, h.myCoinId, h.blockIndexExceeds, h.blockAgeExceeds,
      fun hopcode => absurd hopcode hlock⟩

theorem ConditionContext.permits_timeLock_iff {coin : Coin}
    {condition : Condition} (hlock : condition.IsTimeLock) :
    context.Permits E coin condition ↔
      ∃ blob more, condition.arguments = .bytes blob :: more ∧
        E.intFromBytes blob < context.creationTime := by
  constructor
  · intro h
    exact h.timeExceeds hlock
  · intro h
    unfold Condition.IsTimeLock at hlock
    constructor
    · intro hopcode
      rw [hlock] at hopcode
      exact absurd hopcode (by decide)
    · intro hopcode
      rw [hlock] at hopcode
      exact absurd hopcode (by decide)
    · intro hopcode
      rw [hlock] at hopcode
      exact absurd hopcode (by decide)
    · intro hopcode
      rw [hlock] at hopcode
      exact absurd hopcode (by decide)
    · exact fun _ => h

theorem checkConditionsDict_grouped_ok_iff {coin : Coin} {d : ConditionsDict}
    (hgrouped : d.Grouped) :
    checkConditionsDict E coin d context = .ok () ↔
      ∀ condition ∈ d.conditions, context.Permits E coin condition := by
  obtain ⟨conditions, rfl⟩ := hgrouped
  rw [checkConditionsDict_ok_iff]
  simp only [mem_conditions_conditionsByOpcode_iff]

/-- All conditions hold when they hold without the clock and every bound has
passed. -/
theorem checkConditions_ok_iff
    (hgrouped : ∀ cpc ∈ cpcList, cpc.conditionsDict.Grouped) :
    (∀ cpc ∈ cpcList,
        checkConditionsDict E cpc.coin cpc.conditionsDict context = .ok ()) ↔
      TimelessConditions E context cpcList ∧
        ∀ bound, LockedUntil E cpcList bound → bound < context.creationTime := by
  constructor
  · intro h
    have hpermits : ∀ cpc ∈ cpcList,
        ∀ condition ∈ cpc.conditionsDict.conditions,
          context.Permits E cpc.coin condition := by
      intro cpc hcpc
      exact (checkConditionsDict_grouped_ok_iff (hgrouped cpc hcpc)).mp
        (h cpc hcpc)
    refine ⟨⟨?_, ?_⟩, ?_⟩
    · intro cpc hcpc condition hcondition _
      exact hpermits cpc hcpc condition hcondition
    · intro cpc hcpc condition hcondition hlock
      obtain ⟨blob, more, harguments, -⟩ :=
        (hpermits cpc hcpc condition hcondition).timeExceeds hlock
      exact ⟨blob, more, harguments⟩
    · rintro bound ⟨cpc, hcpc, condition, hcondition, hlock, blob, more,
        harguments, rfl⟩
      obtain ⟨blob', more', harguments', hlt⟩ :=
        (hpermits cpc hcpc condition hcondition).timeExceeds hlock
      rw [harguments] at harguments'
      simp only [List.cons.injEq, PyVal.bytes.injEq] at harguments'
      rw [harguments'.1]
      exact hlt
  · rintro ⟨htimeless, hbounds⟩ cpc hcpc
    rw [checkConditionsDict_grouped_ok_iff (hgrouped cpc hcpc)]
    intro condition hcondition
    by_cases hlock : condition.IsTimeLock
    · obtain ⟨blob, more, harguments⟩ :=
        htimeless.readable cpc hcpc condition hcondition hlock
      refine (ConditionContext.permits_timeLock_iff hlock).mpr
        ⟨blob, more, harguments, hbounds _ ?_⟩
      exact ⟨cpc, hcpc, condition, hcondition, hlock, blob, more, harguments,
        rfl⟩
    · exact htimeless.permits cpc hcpc condition hcondition hlock

theorem checkSolutions_grouped_ok_iff
    (hgrouped : ∀ cpc ∈ cpcList, cpc.conditionsDict.Grouped)
    {pairs : List AggsigPair} :
    checkSolutions E context cpcList = .ok pairs ↔
      (TimelessConditions E context cpcList ∧ keyPairs cpcList = .ok pairs) ∧
        ∀ bound, LockedUntil E cpcList bound →
          bound < context.creationTime := by
  rw [checkSolutions_split_ok_iff, checkConditions_ok_iff hgrouped,
    and_right_comm]

theorem TimelessConditions.raises_checkConditionsDict
    (h : TimelessConditions E context cpcList) {cpc : Cpc}
    (hcpc : cpc ∈ cpcList) (hgrouped : cpc.conditionsDict.Grouped) :
    RaisesCodes [.assertTimeExceedsFailed]
      (checkConditionsDict E cpc.coin cpc.conditionsDict context) := by
  refine Raises.forM ?_
  rintro ⟨opcode, group⟩ hentry
  dsimp only
  cases hchecker : conditionCheckerLookup E opcode with
  | none => exact raises_ok _
  | some checker =>
      refine Raises.forM fun condition hcondition => ?_
      have hmem : condition ∈ cpc.conditionsDict.conditions :=
        List.mem_flatMap.mpr ⟨_, hentry, hcondition⟩
      have hopcode : condition.opcode = opcode := by
        obtain ⟨conditions, hdict⟩ := hgrouped
        rw [← hdict] at hentry
        obtain ⟨-, rfl⟩ := mem_conditionsByOpcode_iff.mp hentry
        simpa using List.of_mem_filter hcondition
      by_cases hlock : condition.IsTimeLock
      · obtain ⟨blob, more, harguments⟩ := h.readable cpc hcpc condition hmem
          hlock
        rw [← hopcode, hlock] at hchecker
        obtain rfl := Option.some.inj hchecker
        unfold assertTimeExceeds assertExceeds Condition.argument
        rw [harguments]
        exact raises_raiseIf (by simp)
      · rw [← hopcode] at hchecker
        have hok := (checker_ok_iff E).mpr
          (h.permits cpc hcpc condition hmem hlock) checker hchecker
        rw [hok]
        exact raises_ok _

/-- Nothing but a time lock fails. -/
theorem TimelessConditions.raises_checkSolutions
    (h : TimelessConditions E context cpcList)
    (hgrouped : ∀ cpc ∈ cpcList, cpc.conditionsDict.Grouped)
    {pairs : List AggsigPair} (hpairs : keyPairs cpcList = .ok pairs) :
    RaisesCodes [.assertTimeExceedsFailed]
      (checkSolutions E context cpcList) := by
  obtain ⟨parts, hparts, -⟩ := bind_eq_ok_iff.mp hpairs
  refine Raises.bind (Raises.mapM fun cpc hcpc => ?_) fun _ => raises_ok _
  refine (h.raises_checkConditionsDict hcpc (hgrouped cpc hcpc)).bind
    fun _ => ?_
  obtain ⟨part, -, hpart⟩ := exists_of_mapM_eq_ok hparts hcpc
  rw [hpart]
  exact raises_ok _

end Clock

/-! ## Blocks that time unlocks -/

/-- The block passes every check that does not ask the clock. -/
structure ClockFree (chainView : ChainView) (header : Header)
    (hashPreimage : Bytes32 → Option Bytes)
    (unspentFor : Bytes32 → Option Unspent) (coinbaseReward timestamp : ℤ)
    (body : Body) (npcList : List Npc) (outputs : List Coin)
    (cpcList : List Cpc) (hashKeyPairs : List AggsigPair) : Prop where
  extends_tip : header.previousHash.hash = chainView.tipHash.hash
  body_eq : header.bodyHash.obj E (Body.parse E) hashPreimage = .ok (some body)
  spendable : SpendableBody E chainView.tipIndex body hashPreimage unspentFor
    coinbaseReward npcList outputs cpcList
  conditions : TimelessConditions E (bodyContext E chainView.tipIndex body
    unspentFor timestamp npcList outputs cpcList) cpcList
  keyPairs_eq : keyPairs cpcList = .ok hashKeyPairs
  signature : body.aggregatedSignature.validate E hashKeyPairs = .ok true

/-- The block is in order but for a time lock that is still closed at
`timestamp`, and all of its time locks are open at `later`. -/
def OpensBetween (chainView : ChainView) (header : Header)
    (hashPreimage : Bytes32 → Option Bytes)
    (unspentFor : Bytes32 → Option Unspent)
    (coinbaseReward timestamp later : ℤ) : Prop :=
  ∃ body npcList outputs cpcList hashKeyPairs,
    ClockFree E chainView header hashPreimage unspentFor coinbaseReward
      timestamp body npcList outputs cpcList hashKeyPairs ∧
    (∃ bound, LockedUntil E cpcList bound ∧ timestamp ≤ bound) ∧
    ∀ bound, LockedUntil E cpcList bound → bound < later

section Blocks

variable {E} {less more : Bytes32 → Option Bytes}

theorem ResolvedBody.grouped {body : Body} {npcList : List Npc}
    {outputs : List Coin} {cpcList : List Cpc}
    (h : ResolvedBody E body less npcList outputs cpcList) :
    ∀ cpc ∈ cpcList, cpc.conditionsDict.Grouped := by
  intro cpc hcpc
  obtain ⟨npc, hnpc, hresolved⟩ := (mem_iff_of_mapM_eq_ok h.resolved).mp hcpc
  obtain ⟨coin, -, hdict⟩ := bind_eq_ok_iff.mp hresolved
  obtain rfl := Except.ok.inj hdict
  obtain ⟨entries, -, hentries⟩ :=
    (namePuzzleConditionsList_eq_ok_iff E).mp h.npcList_eq
  obtain ⟨entry, -, hentry⟩ := (mem_iff_of_mapM_eq_ok hentries).mp hnpc
  obtain ⟨-, solution, puzzle, -, -, -, hconditions⟩ :=
    (npcEntry_eq_ok_iff E).mp hentry
  obtain ⟨conditions, -, hgroups⟩ :=
    (conditionsDictForSolution_eq_ok_iff E).mp hconditions
  exact ⟨conditions, hgroups⟩

theorem TimelessConditions.at_time {tipIndex : ℕ} {body : Body}
    {unspentFor : Bytes32 → Option Unspent} {timestamp : ℤ}
    {npcList : List Npc} {outputs : List Coin} {cpcList : List Cpc}
    (h : TimelessConditions E (bodyContext E tipIndex body unspentFor timestamp
      npcList outputs cpcList) cpcList) (later : ℤ) :
    TimelessConditions E (bodyContext E tipIndex body unspentFor later npcList
      outputs cpcList) cpcList := by
  refine ⟨?_, h.readable⟩
  intro cpc hcpc condition hcondition hlock
  exact (ConditionContext.permits_of_not_timeLock hlock later).mpr
    (h.permits cpc hcpc condition hcondition hlock)

/-- A positive code is not the one of a temporary error. -/
theorem not_positive {α : Type} {x : Except Exn α} {e : Exn}
    (hraises : RaisesCodes [.unknown] x) (h : x = .error e) :
    ¬ 0 < e.code.code := by
  have hcode := hraises e h
  simp only [List.mem_singleton] at hcode
  simp [hcode, Err.code]

variable {tipIndex : ℕ} {body : Body} {unspentFor : Bytes32 → Option Unspent}
  {coinbaseReward timestamp later : ℤ} {e : Exn} {npcList : List Npc}
  {outputs : List Coin} {cpcList : List Cpc}

/-- A body that passes everything but its conditions with more blobs, and is
refused for good with fewer, meets the refusal at its conditions. -/
theorem BodyRefusal.at_conditions (hextends : Extends less more)
    (hmore : SpendableBody E tipIndex body more unspentFor coinbaseReward
      npcList outputs cpcList)
    {hashKeyPairs : List AggsigPair}
    (hpairs : keyPairs cpcList = .ok hashKeyPairs)
    (hsignature : body.aggregatedSignature.validate E hashKeyPairs = .ok true)
    (hpositive : 0 < e.code.code)
    (h : BodyRefusal E tipIndex body less unspentFor coinbaseReward timestamp
      e) :
    SpendableBody E tipIndex body less unspentFor coinbaseReward npcList
        outputs cpcList ∧
      checkSolutions E (bodyContext E tipIndex body unspentFor timestamp
        npcList outputs cpcList) cpcList = .error e := by
  have hcoins : ∀ {npcList' outputs' cpcList'},
      ResolvedBody E body less npcList' outputs' cpcList' →
        npcList' = npcList ∧ outputs' = outputs ∧ cpcList' = cpcList :=
    fun h => (h.extends hextends).unique hmore.toResolvedBody
  cases h with
  | solutionProgram h =>
      rw [hmore.npcList_eq] at h
      simp at h
  | outputs hnpcs h =>
      obtain rfl := Except.ok.inj (hnpcs.symm.trans hmore.npcList_eq)
      rw [hmore.outputs_eq] at h
      simp at h
  | amounts hlists h =>
      obtain ⟨rfl, rfl⟩ := hlists.unique hmore.toListedBody
      rw [(checkAmounts_ok_iff _).mpr hmore.amounts] at h
      simp at h
  | additions hlists _ h =>
      obtain ⟨rfl, rfl⟩ := hlists.unique hmore.toListedBody
      rw [(checkCounter_ok_iff _ _).mpr hmore.additions_nodup] at h
      simp at h
  | removals hlists _ _ h =>
      obtain ⟨rfl, rfl⟩ := hlists.unique hmore.toListedBody
      rw [(checkCounter_ok_iff _ _).mpr hmore.removals_nodup] at h
      simp at h
  | coins _ h =>
      refine absurd hpositive (not_positive (Raises.mapM ?_) h)
      exact fun npc _ => raises_resolveCoin E _ npc
  | puzzleHashes hresolved h =>
      obtain ⟨rfl, rfl, rfl⟩ := hcoins hresolved
      rw [(checkPuzzleHashes_ok_iff _).mpr hmore.puzzleHash] at h
      simp at h
  | spent hresolved _ h =>
      obtain ⟨rfl, rfl, rfl⟩ := hcoins hresolved
      rw [checkRemovals_ok_iff.mpr hmore.spendable] at h
      simp at h
  | fees hresolved _ _ hfees _ =>
      obtain ⟨rfl, rfl, rfl⟩ := hcoins hresolved
      exact absurd hmore.fees hfees
  | conditions hspendable h =>
      obtain ⟨rfl, rfl, rfl⟩ := hcoins hspendable.toResolvedBody
      exact ⟨hspendable, h⟩
  | validation _ _ h =>
      exact absurd hpositive (not_positive (raises_validate E _ _) h)
  | signature hspendable hsolutions hfalse _ =>
      obtain ⟨rfl, rfl, rfl⟩ := hcoins hspendable.toResolvedBody
      obtain ⟨-, hpairs'⟩ := checkSolutions_split_ok_iff.mp hsolutions
      obtain rfl := Except.ok.inj (hpairs.symm.trans hpairs')
      rw [hsignature] at hfalse
      simp at hfalse

variable {chainView : ChainView} {header : Header}

theorem opensBetween_of_accepted (hextends : Extends less more)
    {additions : List Coin} {removals : List Bytes32}
    (haccepted : acceptNewBlock E chainView header more unspentFor
      coinbaseReward later = .ok (additions, removals))
    (hrefused : acceptNewBlock E chainView header less unspentFor
      coinbaseReward timestamp = .error e)
    (hpositive : 0 < e.code.code) :
    OpensBetween E chainView header less unspentFor coinbaseReward timestamp
      later := by
  obtain ⟨htip, body, hobj, haccepted⟩ :=
    (acceptNewBlock_eq_ok_iff E).mp haccepted
  have haccepted := (acceptBody_eq_ok_iff E).mpr haccepted
  obtain ⟨npcList, outputs, cpcList, hashKeyPairs, hmore, hsolutions,
    hsignature, -, -⟩ := acceptBody_eq_ok_iff_spendable.mp haccepted
  have hgrouped := hmore.toResolvedBody.grouped
  obtain ⟨⟨htimeless, hpairs⟩, hbounds⟩ :=
    (checkSolutions_grouped_ok_iff hgrouped).mp hsolutions
  cases (acceptNewBlock_eq_error_iff E).mp hrefused with
  | notExtending hother _ => exact absurd htip hother
  | pointer _ hless h =>
      have hcode := congrArg Exn.code h
      rw [Exn.code_classified] at hcode
      rw [← hcode] at hpositive
      exact absurd hpositive
        (not_positive (raises_obj E (raises_bodyParse E) _ _) hless)
  | missing _ _ h => simp [h, Err.code] at hpositive
  | @body body' e' _ hless hrefusal h =>
      have hsame := HashPointer.obj_extends hextends hless
      obtain rfl := Option.some.inj (Except.ok.inj (hsame.symm.trans hobj))
      have hcode := congrArg Exn.code h
      rw [Exn.code_classified] at hcode
      rw [← hcode] at hpositive
      obtain ⟨hspendable, hfailed⟩ :=
        hrefusal.at_conditions hextends hmore hpairs hsignature hpositive
      refine ⟨_, _, _, _, _, ⟨htip, hless, hspendable,
        htimeless.at_time timestamp, hpairs, hsignature⟩, ?_, hbounds⟩
      by_contra hopen
      push Not at hopen
      have hpass := (checkSolutions_grouped_ok_iff hgrouped).mpr
        ⟨⟨htimeless.at_time timestamp, hpairs⟩, hopen⟩
      rw [hpass] at hfailed
      simp at hfailed

/-- A block whose time locks open later is refused with a permanent code and
accepted afterwards. -/
theorem accepted_of_opensBetween (hextends : Extends less more)
    (h : OpensBetween E chainView header less unspentFor coinbaseReward
      timestamp later) :
    (∃ e, acceptNewBlock E chainView header less unspentFor coinbaseReward
        timestamp = .error e ∧ 0 < e.code.code) ∧
      ∃ r, acceptNewBlock E chainView header more unspentFor coinbaseReward
        later = .ok r := by
  obtain ⟨body, npcList, outputs, cpcList, hashKeyPairs, hfree,
    ⟨bound, hlock, hclosed⟩, hbounds⟩ := h
  have hgrouped := hfree.spendable.toResolvedBody.grouped
  constructor
  · have hnot : ∀ pairs, checkSolutions E (bodyContext E chainView.tipIndex
        body unspentFor timestamp npcList outputs cpcList) cpcList ≠
          .ok pairs := by
      intro pairs hpass
      have hopen := ((checkSolutions_grouped_ok_iff hgrouped).mp hpass).2
      exact absurd (hopen bound hlock) (not_lt.mpr hclosed)
    have hraises := hfree.conditions.raises_checkSolutions hgrouped
      hfree.keyPairs_eq
    obtain ⟨e, he, hcode⟩ := hraises.failsWith_iff.mpr hnot
    refine ⟨e.classified, ?_, ?_⟩
    · exact (acceptNewBlock_eq_error_iff E).mpr (.body hfree.extends_tip
        hfree.body_eq (.conditions hfree.spendable he) rfl)
    · simp only [List.mem_singleton] at hcode
      simp [hcode, Err.code]
  · have hsolutions := (checkSolutions_grouped_ok_iff hgrouped).mpr
      ⟨⟨hfree.conditions.at_time later, hfree.keyPairs_eq⟩, hbounds⟩
    have haccepted := acceptBody_eq_ok_iff_spendable.mpr
      ⟨npcList, outputs, cpcList, hashKeyPairs,
        hfree.spendable.extends hextends, hsolutions, hfree.signature, rfl, rfl⟩
    exact ⟨_, (acceptNewBlock_eq_ok_iff E).mpr ⟨hfree.extends_tip, body,
      HashPointer.obj_extends hextends hfree.body_eq,
      (acceptBody_eq_ok_iff E).mp haccepted⟩⟩

end Blocks

/-- A permanent error stays an error unless time unlocks the block.  The new
storage may resolve more, and the two times are arbitrary. -/
theorem permanent_error_iff {less more : Bytes32 → Option Bytes}
    (hextends : Extends less more) (chainView : ChainView) (header : Header)
    (unspentForCoinName : Bytes32 → Option Unspent)
    (coinbaseReward timestamp later : ℤ) :
    ((∃ e, acceptNewBlock E chainView header less unspentForCoinName
          coinbaseReward timestamp = .error e ∧ 0 < e.code.code) →
        ∃ e, acceptNewBlock E chainView header more unspentForCoinName
          coinbaseReward later = .error e) ↔
      ¬ OpensBetween E chainView header less unspentForCoinName coinbaseReward
        timestamp later := by
  constructor
  · intro hpermanent h
    obtain ⟨hrefused, r, hr⟩ := accepted_of_opensBetween hextends h
    obtain ⟨e, he⟩ := hpermanent hrefused
    rw [hr] at he
    simp at he
  · rintro hnot ⟨e, hrefused, hpositive⟩
    cases hlater : acceptNewBlock E chainView header more unspentForCoinName
      coinbaseReward later with
    | error e' => exact ⟨e', rfl⟩
    | ok r =>
        exact absurd (opensBetween_of_accepted hextends hlater hrefused
          hpositive) hnot

open Reference in
theorem permanent_error_iff_mixed :
    ((∃ e, acceptNewBlock environment (genesisView 0)
          (header ledgerGenesisHash (spendingBody mixedConditions))
          (fun _ => none) (fun _ => none) blockReward 4 = .error e ∧
            0 < e.code.code) →
        ∃ e, acceptNewBlock environment (genesisView 0)
          (header ledgerGenesisHash (spendingBody mixedConditions))
          (fun _ => none) (fun _ => none) blockReward 5 = .error e) ↔
      ¬ OpensBetween environment (genesisView 0)
        (header ledgerGenesisHash (spendingBody mixedConditions))
        (fun _ => none) (fun _ => none) blockReward 4 5 :=
  permanent_error_iff environment (fun _ _ h => h) (genesisView 0)
    (header ledgerGenesisHash (spendingBody mixedConditions)) (fun _ => none)
    blockReward 4 5

open Reference in
/-- At time 4 the time lock of the block fails with a permanent code; at time 5
it is open. -/
theorem permanent_error_is_temporary :
    ¬ ((∃ e, acceptNewBlock environment (genesisView 0)
          (header ledgerGenesisHash (spendingBody mixedConditions))
          (fun _ => none) (fun _ => none) blockReward 4 = .error e ∧
            0 < e.code.code) →
        ∃ e, acceptNewBlock environment (genesisView 0)
          (header ledgerGenesisHash (spendingBody mixedConditions))
          (fun _ => none) (fun _ => none) blockReward 5 = .error e) := by
  intro h
  have hcode : (match acceptNewBlock environment (genesisView 0)
      (header ledgerGenesisHash (spendingBody mixedConditions))
      (fun _ => none) (fun _ => none) blockReward 4 with
    | .ok _ => 0
    | .error e => e.code.code) = 16 := by decide +kernel
  have hlater : (acceptNewBlock environment (genesisView 0)
      (header ledgerGenesisHash (spendingBody mixedConditions))
      (fun _ => none) (fun _ => none) blockReward 5).toOption.isSome = true := by
    decide +kernel
  obtain ⟨r, hr⟩ := Except.toOption_isSome_iff.mp hlater
  rw [hr] at h
  cases hrefused : acceptNewBlock environment (genesisView 0)
      (header ledgerGenesisHash (spendingBody mixedConditions))
      (fun _ => none) (fun _ => none) blockReward 4 with
  | ok r => simp [hrefused] at hcode
  | error e =>
      rw [hrefused] at hcode
      obtain ⟨e', he'⟩ := h ⟨e, hrefused, by simp [show e.code.code = 16 from hcode]⟩
      simp at he'

end LedgerSim
