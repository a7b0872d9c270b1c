import LedgerSim.ChainView
import LedgerSim.Refusal

/-!
# Which errors the checks raise

An exception that is not a `ConsensusError` leaves `accept_new_block` with the
code `UNKNOWN`, so every exception has a code.  Each check is listed here with
the codes that it can raise.
-/

namespace LedgerSim

open Except

variable (E : Environment)

def Exn.code : Exn → Err
  | .consensusError code _ => code
  | .raised _ => .unknown

@[simp] theorem Exn.code_consensusError (code : Err) (bad : BadObject) :
    (Exn.consensusError code bad).code = code := rfl

@[simp] theorem Exn.code_raised (kind : PyException) :
    (Exn.raised kind).code = .unknown := rfl

/-- Every exception of the computation has one of the codes. -/
abbrev RaisesCodes {α : Type} (codes : List Err) (x : Except Exn α) : Prop :=
  Raises (fun e => e.code ∈ codes) x

theorem RaisesCodes.mem {α : Type} {codes : List Err} {x : Except Exn α}
    (h : RaisesCodes codes x) {e : Exn} (hx : x = .error e) {code : Err}
    (hcode : e.code = code) : code ∈ codes :=
  hcode ▸ h e hx

theorem RaisesCodes.weaken {α : Type} {codes codes' : List Err}
    {x : Except Exn α} (h : RaisesCodes codes x) (hsub : codes ⊆ codes') :
    RaisesCodes codes' x :=
  h.mono fun _ hcode => hsub hcode

/-! ## Parsing -/

theorem raises_new (size : ℕ) (b : Bytes) :
    RaisesCodes [.unknown] (SizedBytes.new size b) := by
  unfold SizedBytes.new
  split_ifs
  · exact raises_ok _
  · exact raises_error (by simp)

theorem raises_sizedParse (size : ℕ) (f : Bytes) :
    RaisesCodes [.unknown] (SizedBytes.parse size f) := by
  unfold SizedBytes.parse
  split_ifs
  · exact raises_ok _
  · exact raises_error (by simp)

theorem raises_parseUint64 (f : Bytes) :
    RaisesCodes [.unknown] (parseUint64 f) := by
  unfold parseUint64
  split_ifs
  · exact raises_ok _
  · exact raises_error (by simp)

theorem Parser.raises_bind {α β : Type} {codes : List Err} {x : Parser α}
    {f : α → Parser β} (hx : ∀ b, RaisesCodes codes (x b))
    (hf : ∀ a b, RaisesCodes codes (f a b)) (b : Bytes) :
    RaisesCodes codes ((x >>= f) b) :=
  (hx b).bind fun p => hf p.1 p.2

theorem Parser.raises_pure {α : Type} {codes : List Err} (a : α) (b : Bytes) :
    RaisesCodes codes ((pure a : Parser α) b) :=
  raises_ok _

theorem raises_coinParse (f : Bytes) : RaisesCodes [.unknown] (Coin.parse f) := by
  apply Parser.raises_bind (raises_sizedParse 32)
  intro _
  apply Parser.raises_bind (raises_sizedParse 32)
  intro _
  apply Parser.raises_bind raises_parseUint64
  intro _
  exact Parser.raises_pure _

theorem raises_blsSignatureParse (f : Bytes) :
    RaisesCodes [.unknown] (BLSSignature.parse f) := by
  apply Parser.raises_bind (raises_sizedParse 96)
  intro _
  exact Parser.raises_pure _

theorem raises_bodyParse (f : Bytes) :
    RaisesCodes [.unknown] (Body.parse E f) := by
  have hprogram : ∀ b, RaisesCodes [.unknown] (parseProgram E b) :=
    fun b => raises_mapError (by simp)
  apply Parser.raises_bind raises_blsSignatureParse
  intro _
  apply Parser.raises_bind raises_coinParse
  intro _
  apply Parser.raises_bind raises_coinParse
  intro _
  apply Parser.raises_bind hprogram
  intro _
  apply Parser.raises_bind raises_parseUint64
  intro _
  apply Parser.raises_bind raises_blsSignatureParse
  intro _
  exact Parser.raises_pure _

theorem raises_obj {α : Type} {parse : Parser α}
    (hparse : ∀ b, RaisesCodes [.unknown] (parse b)) (p : HashPointer α)
    (hashPreimage : Bytes32 → Option Bytes) :
    RaisesCodes [.unknown] (p.obj E parse hashPreimage) := by
  unfold HashPointer.obj
  split
  · exact raises_ok _
  · split
    · exact raises_ok _
    · split_ifs
      · exact (hparse _).map.map
      · exact raises_ok _

theorem raises_coinPointerObj (hashPreimage : Bytes32 → Option Bytes)
    (name : Bytes32) :
    RaisesCodes [.unknown] (coinPointerObj E hashPreimage name) := by
  unfold coinPointerObj
  split
  · exact raises_error (by simp)
  · refine (raises_new 32 _).bind fun _ => ?_
    exact (raises_new 32 _).bind fun _ => raises_ok _

/-! ## Conditions -/

theorem SExp.raises_first (sexp : SExp) :
    RaisesCodes [.unknown] sexp.first := by
  cases sexp with
  | atom blob => exact raises_error (by simp)
  | pair left right => exact raises_ok _

theorem SExp.raises_rest (sexp : SExp) : RaisesCodes [.unknown] sexp.rest := by
  cases sexp with
  | atom blob => exact raises_error (by simp)
  | pair left right => exact raises_ok _

theorem SExp.raises_forIter {α : Type} {codes : List Err}
    {f : SExp → Except Exn α} (hf : ∀ x, RaisesCodes codes (f x))
    (hunknown : .unknown ∈ codes) (sexp : SExp) :
    RaisesCodes codes (sexp.forIter f) := by
  induction sexp with
  | atom blob =>
      cases blob with
      | nil => exact raises_ok _
      | cons b rest => exact raises_error hunknown
  | pair x xs _ ih =>
      refine (hf x).bind fun _ => ?_
      exact ih.bind fun _ => raises_ok _

theorem raises_run (program args : Program) :
    RaisesCodes [.unknown] (E.run program args) :=
  raises_mapError (by simp)

theorem raises_parseSexpToCondition (sexp : SExp) :
    RaisesCodes [.unknown, .invalidCondition] (parseSexpToCondition E sexp) := by
  unfold parseSexpToCondition
  split_ifs
  · split
    · exact raises_ok _
    · exact raises_error (by simp)
    · exact raises_error (by simp)
    · exact raises_error (by simp)
    · exact raises_error (by simp)
  · exact raises_error (by simp)

theorem raises_conditionsDictForSolution (solution : Program) :
    RaisesCodes [.unknown, .invalidCondition]
      (conditionsDictForSolution E solution) := by
  have hsub : ([.unknown] : List Err) ⊆ [.unknown, .invalidCondition] := by
    simp
  unfold conditionsDictForSolution conditionsForSolution
  refine Raises.bind ?_ fun _ => raises_ok _
  refine ((SExp.raises_first _).weaken hsub).bind fun _ => ?_
  refine ((SExp.raises_rest _).weaken hsub).bind fun _ => ?_
  refine ((SExp.raises_first _).weaken hsub).bind fun _ => ?_
  refine ((raises_run E _ _).weaken hsub).bind fun _ => ?_
  exact SExp.raises_forIter (raises_parseSexpToCondition E) (by simp) _

def npcCodes : List Err :=
  [.unknown, .invalidCondition, .invalidCoinSolution]

theorem raises_programHash (tree : SExp) :
    RaisesCodes [.unknown] (E.programHash tree) := by
  intro e h
  obtain ⟨-, rfl⟩ := Environment.programHash_eq_error_iff.mp h
  simp

theorem raises_exceptEvalError {α : Type} {codes : List Err} {handler : Exn}
    (hunknown : .unknown ∈ codes) (hhandler : handler.code ∈ codes)
    {x : Except Exn α} (hx : RaisesCodes codes x) :
    RaisesCodes codes (E.exceptEvalError handler x) := by
  intro e h
  cases x with
  | ok a => simp [Environment.exceptEvalError] at h
  | error e' =>
      unfold Environment.exceptEvalError at h
      dsimp only at h
      split at h
      all_goals obtain rfl := Except.error.inj h
      · exact hunknown
      · exact hhandler
      · exact hx _ rfl

theorem raises_npcEntry (entry : SExp) :
    RaisesCodes npcCodes (npcEntry E entry) := by
  have hsub : ([.unknown] : List Err) ⊆ npcCodes := by simp [npcCodes]
  unfold npcEntry
  dsimp only
  split
  · split_ifs
    · refine ((SExp.raises_rest _).weaken hsub).bind fun _ => ?_
      refine ((SExp.raises_first _).weaken hsub).bind fun solution => ?_
      refine ((SExp.raises_first _).weaken hsub).bind fun _ => ?_
      refine ((raises_programHash E _).weaken hsub).bind fun _ => ?_
      refine Raises.bind ?_ fun _ => raises_ok _
      apply raises_exceptEvalError E (by simp [npcCodes]) (by simp [npcCodes])
      exact (raises_conditionsDictForSolution E solution).weaken
        (by simp [npcCodes])
    · exact raises_error (by simp [npcCodes])
  · exact raises_error (by simp [npcCodes])

theorem raises_namePuzzleConditionsList (program : Program) :
    RaisesCodes (.invalidBlockSolution :: npcCodes)
      (namePuzzleConditionsList E program) := by
  unfold namePuzzleConditionsList
  refine Raises.bind ?_ fun output => ?_
  · apply raises_exceptEvalError E (by simp [npcCodes]) (by simp)
    exact (raises_run E _ _).weaken (by simp [npcCodes])
  · exact (SExp.raises_forIter (raises_npcEntry E) (by simp [npcCodes])
      output).weaken (List.subset_cons_self _ _)

theorem raises_toInt (v : PyVal) : RaisesCodes [.unknown] (v.toInt E) := by
  cases v with
  | bytes blob => exact raises_ok _
  | list items => exact raises_error (by simp)
  | tuple left right => exact raises_error (by simp)

theorem raises_toSizedBytes (size : ℕ) (v : PyVal) :
    RaisesCodes [.unknown] (v.toSizedBytes size) := by
  cases v with
  | bytes blob => exact raises_new size blob
  | list items => exact raises_error (by simp)
  | tuple left right => exact raises_error (by simp)

theorem raises_createdOutputs (npcList : List Npc) :
    RaisesCodes [.unknown] (createdOutputs E npcList) := by
  refine Raises.bind (Raises.mapM fun npc _ => Raises.mapM fun condition _ => ?_)
    fun _ => raises_ok _
  unfold createdOutput
  split
  · refine (raises_toInt E _).bind fun _ => ?_
    exact (raises_toSizedBytes 32 _).bind fun _ => raises_ok _
  · exact raises_error (by simp)

theorem raises_hashKeyPairs (conditionsDict : ConditionsDict) :
    RaisesCodes [.unknown] (hashKeyPairsForConditionsDict conditionsDict) := by
  refine Raises.mapM fun condition _ => ?_
  unfold hashKeyPair
  split
  · refine (raises_toSizedBytes 48 _).bind fun _ => ?_
    exact (raises_toSizedBytes 32 _).bind fun _ => raises_ok _
  · exact raises_error (by simp)

/-! ## The checks of a block -/

theorem raises_checkAmounts (additions : List Coin) :
    RaisesCodes [.coinAmountExceedsMaximum] (checkAmounts additions) :=
  Raises.forM fun _ _ => raises_raiseIf (by simp)

theorem raises_checkCounter (err : Err) (names : List Bytes32) :
    RaisesCodes [err] (checkCounter err names) := by
  unfold checkCounter
  split
  · exact raises_error (by simp)
  · exact raises_ok _

theorem raises_resolveCoin (hashPreimage : Bytes32 → Option Bytes)
    (npc : Npc) : RaisesCodes [.unknown] (resolveCoin E hashPreimage npc) :=
  (raises_coinPointerObj E _ _).bind fun _ => raises_ok _

theorem raises_checkPuzzleHashes (cpcList : List Cpc) :
    RaisesCodes [.wrongPuzzleHash] (checkPuzzleHashes cpcList) :=
  Raises.forM fun _ _ => raises_raiseIf (by simp)

theorem raises_checkRemoval (tipIndex : ℕ) (additions : List Coin)
    (coinToUnspent : Dict Bytes32 (Option Unspent)) (coin : Coin) :
    RaisesCodes [.unknown, .unknownUnspent, .doubleSpend]
      (checkRemoval E tipIndex additions coinToUnspent coin) := by
  unfold checkRemoval
  split_ifs
  · exact raises_ok _
  · split
    · exact raises_error (by simp)
    · exact raises_error (by simp)
    · split_ifs
      · exact raises_error (by simp)
      · exact raises_error (by simp)
      · exact raises_ok _

def conditionCodes : List Err :=
  [.unknown, .assertCoinConsumedFailed, .assertMyCoinIdFailed,
    .assertBlockIndexExceedsFailed, .assertBlockAgeExceedsFailed,
    .assertTimeExceedsFailed]

theorem raises_argument (condition : Condition) :
    RaisesCodes [.unknown] condition.argument := by
  unfold Condition.argument
  split
  · exact raises_error (by simp)
  · exact raises_ok _

theorem raises_assertExceeds (failure : Err) (current offset : ℤ)
    (condition : Condition) (coin : Coin) :
    RaisesCodes [.unknown, failure]
      (assertExceeds E failure current offset condition coin) := by
  have hsub : ([.unknown] : List Err) ⊆ [.unknown, failure] := by simp
  refine ((raises_argument condition).weaken hsub).bind fun _ => ?_
  refine ((raises_toInt E _).weaken hsub).bind fun _ => ?_
  exact raises_raiseIf (by simp)

theorem raises_checker {conditionId : Bytes}
    {checker : Condition → Coin → ConditionContext → Except Exn Unit}
    (hchecker : conditionCheckerLookup E conditionId = some checker)
    (condition : Condition) (coin : Coin) (context : ConditionContext) :
    RaisesCodes conditionCodes (checker condition coin context) := by
  have hunknown : ([.unknown] : List Err) ⊆ conditionCodes := by
    simp [conditionCodes]
  unfold conditionCheckerLookup at hchecker
  split_ifs at hchecker
  · obtain rfl := Option.some.inj hchecker
    refine Raises.forM fun argument _ => ?_
    split
    · exact raises_raiseIf (by simp [conditionCodes])
    · split_ifs
      · exact raises_error (by simp [conditionCodes])
      · exact raises_error (by simp [conditionCodes])
  · obtain rfl := Option.some.inj hchecker
    refine ((raises_argument condition).weaken hunknown).bind fun _ => ?_
    split
    · exact raises_raiseIf (by simp [conditionCodes])
    · exact raises_error (by simp [conditionCodes])
  · obtain rfl := Option.some.inj hchecker
    exact (raises_assertExceeds E _ _ _ _ _).weaken (by simp [conditionCodes])
  · obtain rfl := Option.some.inj hchecker
    unfold assertBlockAgeExceeds
    split
    · exact raises_error (by simp [conditionCodes])
    · refine ((raises_argument condition).weaken hunknown).bind fun _ => ?_
      refine ((raises_toInt E _).weaken hunknown).bind fun _ => ?_
      exact raises_error (by simp [conditionCodes])
    · exact (raises_assertExceeds E _ _ _ _ _).weaken (by simp [conditionCodes])
  · obtain rfl := Option.some.inj hchecker
    exact (raises_assertExceeds E _ _ _ _ _).weaken (by simp [conditionCodes])

theorem raises_checkConditionsDict (coin : Coin)
    (conditionsDict : ConditionsDict) (context : ConditionContext) :
    RaisesCodes conditionCodes
      (checkConditionsDict E coin conditionsDict context) := by
  refine Raises.forM fun entry _ => ?_
  dsimp only
  split
  · exact raises_ok _
  next checker hlookup =>
    exact Raises.forM fun condition _ =>
      raises_checker E hlookup condition coin context

theorem raises_checkSolutions (context : ConditionContext)
    (cpcList : List Cpc) :
    RaisesCodes conditionCodes (checkSolutions E context cpcList) := by
  refine Raises.bind (Raises.mapM fun cpc _ => ?_) fun _ => raises_ok _
  refine (raises_checkConditionsDict E _ _ _).bind fun _ => ?_
  exact (raises_hashKeyPairs _).weaken (by simp [conditionCodes])

theorem raises_validate (self : BLSSignature) (pairs : List AggsigPair) :
    RaisesCodes [.unknown] (self.validate E pairs) := by
  unfold BLSSignature.validate
  split
  · exact raises_ok _
  · refine Raises.bind (Raises.mapM fun _ _ => raises_mapError (by simp))
      fun _ => ?_
    dsimp only
    split
    · exact raises_ok _
    · exact raises_ok _

end LedgerSim
