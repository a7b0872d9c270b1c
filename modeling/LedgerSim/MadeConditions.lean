import LedgerSim.ConditionChecks
import LedgerSim.DelegatedPuzzle
import LedgerSim.MalformedData

/-!
# Making conditions

A wallet makes conditions from hashes and numbers.  The ledger meets them as
bytes: they are converted to s-expressions, returned by a puzzle, parsed and
checked.  Each condition asks for what its maker was called with.
-/

namespace LedgerSim

variable (E : Environment)

/-! ## The makers -/

/-- An item of the list that a maker returns. -/
inductive MadeItem where
  | bytes (blob : Bytes)
  | int (value : ℤ)

/-- `[opcode, …]` -/
structure MadeCondition where
  opcode : ConditionOpcode
  arguments : List MadeItem

def makeCreateCoinCondition (puzzleHash : Bytes32) (amount : ℤ) :
    MadeCondition :=
  ⟨.createCoin, [.bytes puzzleHash.1, .int amount]⟩

def makeAssertCoinConsumedCondition (coinName : Bytes32) : MadeCondition :=
  ⟨.assertCoinConsumed, [.bytes coinName.1]⟩

def makeAssertMyCoinIdCondition (coinName : Bytes32) : MadeCondition :=
  ⟨.assertMyCoinId, [.bytes coinName.1]⟩

/-- The opcodes have no member `ASSERT_MIN_TIME`. -/
def makeAssertMinTimeCondition (_time : ℤ) : Except Exn MadeCondition :=
  .error PyException.attributeError

def makeAssertBlockIndexExceedsCondition (blockIndex : ℤ) : MadeCondition :=
  ⟨.assertBlockIndexExceeds, [.int blockIndex]⟩

def makeAssertBlockAgeExceedsCondition (blockIndex : ℤ) : MadeCondition :=
  ⟨.assertBlockAgeExceeds, [.int blockIndex]⟩

def makeAssertTimeExceedsCondition (time : ℤ) : MadeCondition :=
  ⟨.assertTimeExceeds, [.int time]⟩

/-- `conditions_for_payment` -/
def conditionsForPayment (puzzleHashAmountPairs : List (Bytes32 × ℤ)) :
    List MadeCondition :=
  puzzleHashAmountPairs.map fun (puzzleHash, amount) =>
    makeCreateCoinCondition puzzleHash amount

/-! ## `Program.to` -/

def MadeItem.toSexp : MadeItem → SExp
  | .bytes blob => .atom blob
  | .int value => .atom (E.intToBytes value)

def MadeCondition.toSexp (self : MadeCondition) : SExp :=
  .ofList (.atom self.opcode.value :: self.arguments.map (MadeItem.toSexp E))

def programOfConditions (conditions : List MadeCondition) : Program :=
  .ofList (conditions.map (MadeCondition.toSexp E))

def conditionsToSexp (conditions : List MadeCondition) : Program :=
  .ofList [E.quoteKeyword, programOfConditions E conditions]

/-! ## Reading them back -/

def MadeItem.read : MadeItem → PyVal
  | .bytes blob => .bytes blob
  | .int value => .bytes (E.intToBytes value)

def MadeCondition.read (self : MadeCondition) : Condition :=
  ⟨self.opcode.value, self.arguments.map (MadeItem.read E)⟩

section Reading

variable {E}

theorem parse_toSexp (hread : ReadsLists E) (condition : MadeCondition) :
    parseSexpToCondition E (condition.toSexp E) =
      .ok (condition.read E) := by
  have hitems : (condition.arguments.map (MadeItem.toSexp E)).map E.asPython =
      condition.arguments.map (MadeItem.read E) := by
    rw [List.map_map]
    apply List.map_congr_left
    intro item _
    cases item <;> exact hread.asPython_atom _
  have hlist : E.asPython (condition.toSexp E) = .list
      (.bytes condition.opcode.value ::
        condition.arguments.map (MadeItem.read E)) := by
    unfold MadeCondition.toSexp
    rw [hread.asPython_list, List.map_cons, hread.asPython_atom, hitems]
  unfold parseSexpToCondition
  rw [hlist]
  rfl

/-- A list of made conditions is read as it was made. -/
theorem parse_programOfConditions (hread : ReadsLists E)
    (conditions : List MadeCondition) :
    parseSexpToConditions E (programOfConditions E conditions) =
      .ok (conditions.map (MadeCondition.read E)) := by
  unfold parseSexpToConditions programOfConditions
  rw [SExp.forIter_ofList, List.mapM_map, Except.mapM_eq_ok_iff,
    List.forall₂_map_right_iff, List.forall₂_same]
  exact fun condition _ => parse_toSexp hread condition

/-- Quoting the conditions in Python is running the puzzle that quotes
them. -/
theorem puzzleForConditions_eq {tools : PuzzleTools} (htools : tools.Lawful E)
    (conditions : List MadeCondition) :
    P2Conditions.puzzleForConditions E tools
        (programOfConditions E conditions) =
      .ok (conditionsToSexp E conditions) := by
  unfold P2Conditions.puzzleForConditions
  rw [htools.p2Conditions_run, p2Conditions_returns_iff]
  exact ⟨_, .null, rfl, rfl⟩

end Reading

/-! ## What the conditions ask for -/

/-- A call of a maker. -/
inductive MakerCall where
  | createCoin (puzzleHash : Bytes32) (amount : ℤ)
  | assertCoinConsumed (coinName : Bytes32)
  | assertMyCoinId (coinName : Bytes32)
  | assertBlockIndexExceeds (blockIndex : ℤ)
  | assertBlockAgeExceeds (blockIndex : ℤ)
  | assertTimeExceeds (time : ℤ)

namespace MakerCall

def make : MakerCall → MadeCondition
  | createCoin puzzleHash amount => makeCreateCoinCondition puzzleHash amount
  | assertCoinConsumed coinName => makeAssertCoinConsumedCondition coinName
  | assertMyCoinId coinName => makeAssertMyCoinIdCondition coinName
  | assertBlockIndexExceeds blockIndex =>
      makeAssertBlockIndexExceedsCondition blockIndex
  | assertBlockAgeExceeds blockIndex =>
      makeAssertBlockAgeExceedsCondition blockIndex
  | assertTimeExceeds time => makeAssertTimeExceedsCondition time

/-- What the call asks of a block at `blockIndex`, which removes `removals` and
is created at `time`, about a coin whose age counts from `confirmed`. -/
def Met (removals : List Bytes32) (blockIndex confirmed : ℕ) (time : ℤ)
    (coin : Coin) : MakerCall → Prop
  | createCoin _ _ => True
  | assertCoinConsumed coinName => coinName ∈ removals
  | assertMyCoinId coinName => coinName = coin.name E
  | assertBlockIndexExceeds bound => bound < blockIndex
  | assertBlockAgeExceeds bound => bound + confirmed < blockIndex
  | assertTimeExceeds bound => bound < time

/-- The puzzle hash and the amount of the coin that the call creates. -/
def payment? : MakerCall → Option (Bytes32 × ℤ)
  | createCoin puzzleHash amount => some (puzzleHash, amount)
  | _ => none

variable {E}

/-- The checkers enforce what the makers were asked for. -/
theorem holds_iff (hE : E.Lawful) {removals : List Bytes32}
    {blockIndex confirmed : ℕ} {time : ℤ} {coin : Coin} (call : MakerCall) :
    (call.make.read E).Holds E removals blockIndex (some confirmed) time
        coin ↔
      call.Met E removals blockIndex confirmed time coin := by
  have hint := hE.intFromBytes_intToBytes
  constructor
  · intro h
    cases call with
    | createCoin puzzleHash amount => trivial
    | assertCoinConsumed coinName =>
        obtain ⟨name, hname, heq⟩ := h.coinConsumed rfl _ List.mem_cons_self
        obtain rfl : coinName = name := Subtype.ext (PyVal.bytes.inj heq)
        exact hname
    | assertMyCoinId coinName =>
        obtain ⟨more, heq⟩ := h.myCoinId rfl
        exact Subtype.ext (PyVal.bytes.inj (List.cons.inj heq).1)
    | assertBlockIndexExceeds bound =>
        obtain ⟨blob, more, heq, hlt⟩ := h.blockIndexExceeds rfl
        obtain rfl := PyVal.bytes.inj (List.cons.inj heq).1
        rwa [hint] at hlt
    | assertBlockAgeExceeds bound =>
        obtain ⟨index, hindex, blob, more, heq, hlt⟩ := h.blockAgeExceeds rfl
        obtain rfl := Option.some.inj hindex
        obtain rfl := PyVal.bytes.inj (List.cons.inj heq).1
        rwa [hint] at hlt
    | assertTimeExceeds bound =>
        obtain ⟨blob, more, heq, hlt⟩ := h.timeExceeds rfl
        obtain rfl := PyVal.bytes.inj (List.cons.inj heq).1
        rwa [hint] at hlt
  · intro h
    cases call with
    | createCoin puzzleHash amount => constructor <;> exact nofun
    | assertCoinConsumed coinName =>
        refine ⟨?_, nofun, nofun, nofun, nofun⟩
        intro _ argument hargument
        obtain rfl := List.mem_singleton.mp hargument
        exact ⟨coinName, h, rfl⟩
    | assertMyCoinId coinName =>
        refine ⟨nofun, fun _ => ⟨[], ?_⟩, nofun, nofun, nofun⟩
        rw [← show coinName = coin.name E from h]
        rfl
    | assertBlockIndexExceeds bound =>
        refine ⟨nofun, nofun, fun _ => ⟨_, [], rfl, ?_⟩, nofun, nofun⟩
        rw [hint]
        exact h
    | assertBlockAgeExceeds bound =>
        refine ⟨nofun, nofun, nofun, fun _ => ⟨_, rfl, _, [], rfl, ?_⟩, nofun⟩
        rw [hint]
        exact h
    | assertTimeExceeds bound =>
        refine ⟨nofun, nofun, nofun, nofun, fun _ => ⟨_, [], rfl, ?_⟩⟩
        rw [hint]
        exact h

end MakerCall

/-! ## The created coins -/

section Created

variable {E}

def paymentsOf (calls : List MakerCall) : List (Bytes32 × ℤ) :=
  calls.filterMap MakerCall.payment?

/-- The coins that the payments create out of a coin. -/
def paymentCoins (payments : List (Bytes32 × ℤ)) (inputCoinName : Bytes32) :
    List Coin :=
  payments.map fun (puzzleHash, amount) => ⟨inputCoinName, puzzleHash, amount⟩

theorem createdOutput_read (hE : E.Lawful) (inputCoinName puzzleHash : Bytes32)
    (amount : ℤ) :
    createdOutput E inputCoinName
        ((makeCreateCoinCondition puzzleHash amount).read E) =
      .ok ⟨inputCoinName, puzzleHash, amount⟩ := by
  have hhash : (PyVal.bytes puzzleHash.1).toSizedBytes 32 = .ok puzzleHash :=
    toSizedBytes_ok_iff.mpr rfl
  have hamount : (PyVal.bytes (E.intToBytes amount)).toInt E = .ok amount :=
    congrArg Except.ok (hE.intFromBytes_intToBytes amount)
  exact Except.bind_eq_ok hamount (Except.bind_eq_ok hhash rfl)

theorem filter_createCoin_read (calls : List MakerCall) :
    ((calls.map fun call => call.make.read E).filter fun condition =>
        condition.opcode = ConditionOpcode.createCoin.value) =
      (paymentsOf calls).map fun payment =>
        (makeCreateCoinCondition payment.1 payment.2).read E := by
  induction calls with
  | nil => rfl
  | cons call calls ih =>
      cases call <;>
        simp [paymentsOf, MakerCall.payment?, MakerCall.make,
          MadeCondition.read, ConditionOpcode.value, makeCreateCoinCondition,
          makeAssertCoinConsumedCondition, makeAssertMyCoinIdCondition,
          makeAssertBlockIndexExceedsCondition,
          makeAssertBlockAgeExceedsCondition, makeAssertTimeExceedsCondition]
          at ih ⊢ <;>
        exact ih

end Created

end LedgerSim
