import LedgerSim.AcceptedBlock
import LedgerSim.ReferenceEnvironment

/-!
# The values that acceptance counts

The reward check adds and subtracts amounts.  Amounts of created coins are
read as signed integers of any length, and a removed coin is whatever the
stored blob decodes to.  The results say when an accepted block has amounts in
range, and when the coins it counts are the coins it removes.
-/

namespace LedgerSim

variable (E : Environment)

/-! ## Created coins -/

theorem createdOutput_eq_ok_iff {inputCoinName : Bytes32}
    {condition : Condition} {coin : Coin} :
    createdOutput E inputCoinName condition = .ok coin ↔
      ∃ puzzleHash blob hash,
        condition.arguments = [puzzleHash, .bytes blob] ∧
          puzzleHash.toSizedBytes 32 = .ok hash ∧
            ⟨inputCoinName, hash, E.intFromBytes blob⟩ = coin := by
  unfold createdOutput
  constructor
  · intro h
    split at h
    next puzzleHash amountBin hargs =>
      obtain ⟨amount, hamount, h⟩ := Except.bind_eq_ok_iff.mp h
      obtain ⟨hash, hhash, h⟩ := Except.bind_eq_ok_iff.mp h
      cases amountBin with
      | bytes blob =>
          obtain rfl : E.intFromBytes blob = amount := Except.ok.inj hamount
          exact ⟨puzzleHash, blob, hash, hargs, hhash, Except.ok.inj h⟩
      | list items => simp [PyVal.toInt] at hamount
      | tuple left right => simp [PyVal.toInt] at hamount
    next => simp at h
  · rintro ⟨puzzleHash, blob, hash, hargs, hhash, rfl⟩
    rw [hargs]
    simp only [PyVal.toInt, bind, Except.bind, hhash]

theorem mem_outputs_iff {npcList : List Npc} {outputs : List Coin}
    (houtputs : createdOutputs E npcList = .ok outputs) {coin : Coin} :
    coin ∈ outputs ↔
      ∃ npc ∈ npcList, ∃ condition ∈ npc.conditionsDict.get .createCoin,
        createdOutput E npc.coinName condition = .ok coin := by
  obtain ⟨lists, hlists, h⟩ := Except.bind_eq_ok_iff.mp houtputs
  simp only [Except.ok.injEq] at h
  subst outputs
  rw [List.mem_flatten]
  constructor
  · rintro ⟨coins, hcoins, hmem⟩
    obtain ⟨npc, hnpc, hrun⟩ := (Except.mem_iff_of_mapM_eq_ok hlists).mp hcoins
    exact ⟨npc, hnpc, (Except.mem_iff_of_mapM_eq_ok hrun).mp hmem⟩
  · rintro ⟨npc, hnpc, condition, hcondition, hcreated⟩
    obtain ⟨coins, hcoins, hrun⟩ := Except.exists_of_mapM_eq_ok hlists hnpc
    exact ⟨coins, hcoins,
      (Except.mem_iff_of_mapM_eq_ok hrun).mpr ⟨condition, hcondition, hcreated⟩⟩

/-! ## Amounts in range -/

theorem parseUint64_nonneg {b rest : Bytes} {value : ℤ}
    (h : parseUint64 b = .ok (value, rest)) : 0 ≤ value := by
  unfold parseUint64 at h
  split_ifs at h
  simp only [Except.ok.injEq, Prod.mk.injEq] at h
  rw [← h.1]
  exact Int.natCast_nonneg _

theorem Coin.parse_nonneg {b rest : Bytes} {coin : Coin}
    (h : Coin.parse b = .ok (coin, rest)) : 0 ≤ coin.amount := by
  obtain ⟨_, _, _, h⟩ := Parser.bind_eq_ok_iff.mp h
  obtain ⟨_, _, _, h⟩ := Parser.bind_eq_ok_iff.mp h
  obtain ⟨amount, _, hamount, h⟩ := Parser.bind_eq_ok_iff.mp h
  obtain rfl := (Prod.mk.inj (Except.ok.inj h)).1
  exact parseUint64_nonneg hamount

/-- Both coins of a body that streams or was parsed have amounts that a
`uint64` can hold. -/
theorem bodyCoins_nonneg {header : Header}
    {hashPreimage : Bytes32 → Option Bytes} {body : Body}
    (hsound : header.bodyHash.Sound E (Body.bytes E))
    (hbody : header.bodyHash.obj E (Body.parse E) hashPreimage =
      .ok (some body)) :
    0 ≤ body.coinbaseCoin.amount ∧ 0 ≤ body.feesCoin.amount := by
  unfold HashPointer.obj at hbody
  cases hcached : header.bodyHash.cached with
  | some v =>
      rw [hcached] at hbody
      obtain rfl : v = body := by simpa using hbody
      obtain ⟨blob, hblob, -⟩ := hsound v hcached
      obtain ⟨hcoinbase, hfees, -⟩ := (Body.exists_bytes_iff E).mp ⟨_, hblob⟩
      exact ⟨(Coin.exists_stream_iff.mp hcoinbase).1,
        (Coin.exists_stream_iff.mp hfees).1⟩
  | none =>
      rw [hcached] at hbody
      cases hblob : hashPreimage header.bodyHash.hash with
      | none => simp [hblob] at hbody
      | some blob =>
          simp only [hblob] at hbody
          by_cases hhash : E.stdHash blob = header.bodyHash.hash
          case neg => simp [hhash] at hbody
          rw [if_pos hhash] at hbody
          obtain ⟨parsed, hparsed, h⟩ := Except.map_eq_ok_iff.mp hbody
          obtain rfl := Option.some.inj h
          obtain ⟨⟨body, rest⟩, hrun, h⟩ := Except.map_eq_ok_iff.mp hparsed
          obtain rfl : body = parsed := h
          obtain ⟨_, _, _, hrun⟩ := Parser.bind_eq_ok_iff.mp hrun
          obtain ⟨coinbase, _, hcoinbase, hrun⟩ :=
            Parser.bind_eq_ok_iff.mp hrun
          obtain ⟨fees, _, hfees, hrun⟩ := Parser.bind_eq_ok_iff.mp hrun
          obtain ⟨_, _, _, hrun⟩ := Parser.bind_eq_ok_iff.mp hrun
          obtain ⟨_, _, _, hrun⟩ := Parser.bind_eq_ok_iff.mp hrun
          obtain ⟨_, _, _, hrun⟩ := Parser.bind_eq_ok_iff.mp hrun
          obtain rfl := (Prod.mk.inj (Except.ok.inj hrun)).1
          exact ⟨Coin.parse_nonneg hcoinbase, Coin.parse_nonneg hfees⟩

/-- No `CREATE_COIN` condition of the spends has an amount with its sign bit
set. -/
def UnsignedAmounts (npcList : List Npc) : Prop :=
  ∀ npc ∈ npcList, ∀ condition ∈ npc.conditionsDict.get .createCoin,
    ∀ puzzleHash blob, condition.arguments = [puzzleHash, .bytes blob] →
      BigEndian.signBit blob = false

/-- The only check on an amount is an upper bound, so an accepted block has
all amounts in range exactly when no created amount is encoded as negative. -/
theorem acceptNewBlock_amounts_iff
    (hcast : ∀ b, E.intFromBytes b = BigEndian.toInt b)
    (chainView : ChainView) (header : Header)
    (hashPreimage : Bytes32 → Option Bytes)
    (unspentForCoinName : Bytes32 → Option Unspent)
    (coinbaseReward timestamp : ℤ) (additions : List Coin)
    (removals : List Bytes32) (body : Body) (npcList : List Npc)
    (hsound : header.bodyHash.Sound E (Body.bytes E))
    (haccepted : acceptNewBlock E chainView header hashPreimage
      unspentForCoinName coinbaseReward timestamp = .ok (additions, removals))
    (hbody : header.bodyHash.obj E (Body.parse E) hashPreimage =
      .ok (some body))
    (hnpc : namePuzzleConditionsList E body.solutionProgram = .ok npcList) :
    (∀ coin ∈ additions, 0 ≤ coin.amount ∧ coin.amount < maxCoinAmount) ↔
      UnsignedAmounts npcList := by
  obtain ⟨-, body', hbody', a, rfl, -⟩ :=
    (acceptNewBlock_eq_ok_iff E).mp haccepted
  obtain rfl : body = body' := by simpa using hbody.symm.trans hbody'
  obtain rfl : a.npcList = npcList :=
    Except.ok.inj (a.npcList_eq.symm.trans hnpc)
  have houtput : ∀ npc ∈ a.npcList,
      ∀ condition ∈ npc.conditionsDict.get .createCoin,
      ∃ coin ∈ a.outputs,
        createdOutput E npc.coinName condition = .ok coin := by
    intro npc hmem condition hcondition
    obtain ⟨lists, hlists, -⟩ := Except.bind_eq_ok_iff.mp a.outputs_eq
    obtain ⟨coins, -, hcoins⟩ := Except.exists_of_mapM_eq_ok hlists hmem
    obtain ⟨coin, -, hcreated⟩ := Except.exists_of_mapM_eq_ok hcoins hcondition
    exact ⟨coin, (mem_outputs_iff E a.outputs_eq).mpr
      ⟨npc, hmem, condition, hcondition, hcreated⟩, hcreated⟩
  constructor
  · intro hrange npc hmem condition hcondition puzzleHash blob hargs
    obtain ⟨coin, hcoin, hcreated⟩ := houtput npc hmem condition hcondition
    obtain ⟨puzzleHash', blob', hash, hargs', -, rfl⟩ :=
      (createdOutput_eq_ok_iff E).mp hcreated
    obtain ⟨-, rfl⟩ : puzzleHash = puzzleHash' ∧ blob = blob' := by
      simpa using hargs.symm.trans hargs'
    have hnonneg := (hrange _ (mem_additions_iff.mpr (.inr hcoin))).1
    rw [hcast] at hnonneg
    exact (BigEndian.toInt_nonneg_iff blob).mp hnonneg
  · intro hunsigned coin hmem
    refine ⟨?_, a.amounts coin hmem⟩
    have hcoins := bodyCoins_nonneg E hsound hbody
    rcases mem_additions_iff.mp hmem with hreward | houtput
    · rcases List.mem_pair.mp hreward with rfl | rfl
      · exact hcoins.1
      · exact hcoins.2
    · obtain ⟨npc, hnpc, condition, hcondition, hcreated⟩ :=
        (mem_outputs_iff E a.outputs_eq).mp houtput
      obtain ⟨puzzleHash, blob, hash, hargs, -, rfl⟩ :=
        (createdOutput_eq_ok_iff E).mp hcreated
      rw [hcast]
      exact (BigEndian.toInt_nonneg_iff blob).mpr
        (hunsigned npc hnpc condition hcondition puzzleHash blob hargs)

namespace Reference

def splitReward (left right : ℤ) : List SExp :=
  [createCoin (SizedBytes.fill 32 1) (BigEndian.ofInt left),
    createCoin (SizedBytes.fill 32 2) (BigEndian.ofInt right)]

def splitAdditions (left right : ℤ) : List Coin :=
  let coinbase := coinbaseCoin (splitReward left right)
  [coinbase, ⟨indexHash 1, SizedBytes.fill 32 4, 0⟩,
    ⟨coinbase.name environment, SizedBytes.fill 32 1, left⟩,
    ⟨coinbase.name environment, SizedBytes.fill 32 2, right⟩]

def splitBlock (left right : ℤ) : Header :=
  header ledgerGenesisHash (spendingBody (splitReward left right))

end Reference

open Reference in
theorem acceptNewBlock_amounts_iff_split :
    (∀ coin ∈ splitAdditions 999999999 1,
        0 ≤ coin.amount ∧ coin.amount < maxCoinAmount) ↔
      UnsignedAmounts ((namePuzzleConditionsList environment (spendingBody
        (splitReward 999999999 1)).solutionProgram).toOption.getD []) :=
  acceptNewBlock_amounts_iff environment environment_lawful.intFromBytes_eq
    (genesisView 0) (splitBlock 999999999 1) (fun _ => none) (fun _ => none)
    blockReward 0 _
    [(coinbaseCoin (splitReward 999999999 1)).name environment]
    (spendingBody (splitReward 999999999 1)) _
    (pointer_sound (Except.eq_ok_getD (by decide +kernel) []))
    (Except.toOption_eq_some_iff.mp (by decide +kernel))
    rfl (Except.eq_ok_getD (by decide +kernel) [])

open Reference in
/-- A spend of the coinbase coin creates more than the reward together with a
coin of negative amount. -/
theorem acceptNewBlock_negative_amount :
    ¬ ∀ additions removals,
      acceptNewBlock environment (genesisView 0) (splitBlock 1000000005 (-5))
          (fun _ => none) (fun _ => none) blockReward 0 =
        .ok (additions, removals) →
      ∀ coin ∈ additions, 0 ≤ coin.amount ∧ coin.amount < maxCoinAmount := by
  intro hrange
  have haccepted : acceptNewBlock environment (genesisView 0)
      (splitBlock 1000000005 (-5)) (fun _ => none) (fun _ => none) blockReward
      0 = .ok (splitAdditions 1000000005 (-5),
        [(coinbaseCoin (splitReward 1000000005 (-5))).name environment]) :=
    Except.toOption_eq_some_iff.mp (by decide +kernel)
  have hnegative := hrange _ _ haccepted
    ⟨(coinbaseCoin (splitReward 1000000005 (-5))).name environment,
      SizedBytes.fill 32 2, -5⟩
    (by simp [splitAdditions])
  exact absurd hnegative.1 (by decide)

/-! ## Removed coins -/

def recode (blob : Bytes) : Bytes :=
  blob.take 64 ++ E.intToBytes (E.intFromBytes (blob.drop 64))

/-- The amount at the end of the blob is encoded as the writer would. -/
def MinimalAmount (blob : Bytes) : Prop :=
  E.intToBytes (E.intFromBytes (blob.drop 64)) = blob.drop 64

theorem recode_eq_iff (blob : Bytes) :
    recode E blob = blob ↔ MinimalAmount E blob := by
  unfold recode MinimalAmount
  constructor
  · intro h
    exact List.append_cancel_left
      (h.trans (List.take_append_drop 64 blob).symm)
  · intro h
    rw [h, List.take_append_drop]

theorem Coin.bytes_of_fromBytes {blob : Bytes} {coin : Coin}
    (h : Coin.fromBytes E blob = .ok coin) : coin.bytes E = recode E blob := by
  obtain ⟨parent, hparent, h⟩ := Except.bind_eq_ok_iff.mp h
  obtain ⟨puzzle, hpuzzle, h⟩ := Except.bind_eq_ok_iff.mp h
  obtain rfl := Except.ok.inj h
  unfold Coin.bytes recode
  rw [SizedBytes.new_eq_ok_iff.mp hparent, SizedBytes.new_eq_ok_iff.mp hpuzzle,
    ← List.take_add]

/-- The blobs of a `Storage`: a hash is answered by a preimage of it. -/
def StorageContract (hashPreimage : Bytes32 → Option Bytes) : Prop :=
  ∀ hash blob, hashPreimage hash = some blob → E.stdHash blob = hash

/-- A removed name that is the name of an added coin resolves to that coin,
any other name to the coin that its stored blob is read as. -/
theorem coinPointerObj_overlay {additions : List Coin}
    (hE : E.Lawful) (hnodup : (additions.map (Coin.name E)).Nodup)
    {hashPreimage : Bytes32 → Option Bytes} {name : Bytes32} {coin : Coin}
    (h : coinPointerObj E
      (overlay (ramStorageOf E additions).hashPreimage hashPreimage) name =
        .ok coin) :
    (coin ∈ additions ∧ coin.name E = name) ∨
      (name ∉ additions.map (Coin.name E) ∧
        ∃ blob, hashPreimage name = some blob ∧
          Coin.fromBytes E blob = .ok coin) := by
  unfold coinPointerObj at h
  by_cases hadded : name ∈ additions.map (Coin.name E)
  · obtain ⟨added, hmem, rfl⟩ := List.mem_map.mp hadded
    rw [overlay_of_top (ramStorageOf_of_mem E hnodup hmem)] at h
    obtain rfl := Except.ok.inj ((Coin.fromBytes_bytes E hE added).symm.trans h)
    exact .inl ⟨hmem, rfl⟩
  · rw [overlay_of_top_none (ramStorageOf_of_notMem E hnodup hadded)] at h
    cases hblob : hashPreimage name with
    | none => simp [hblob] at h
    | some blob =>
        rw [hblob] at h
        exact .inr ⟨hadded, blob, rfl, h⟩

def removedCoins (additions : List Coin) (removals : List Bytes32)
    (hashPreimage : Bytes32 → Option Bytes) : Except Exn (List Coin) :=
  removals.mapM (coinPointerObj E
    (overlay (ramStorageOf E additions).hashPreimage hashPreimage))

/-- Duplicate removals are looked for among the names in the body, so the
coins that an accepted block counts are the ones it removes exactly when every
stored blob among them has the minimal encoding of its amount. -/
theorem acceptNewBlock_removedCoins_iff (hE : E.Lawful)
    (chainView : ChainView) (header : Header)
    (hashPreimage : Bytes32 → Option Bytes)
    (unspentForCoinName : Bytes32 → Option Unspent)
    (coinbaseReward timestamp : ℤ) (additions : List Coin)
    (removals : List Bytes32) (coins : List Coin)
    (hcontract : StorageContract E hashPreimage)
    (hcollision : ∀ name blob, hashPreimage name = some blob →
      E.stdHash (recode E blob) = E.stdHash blob → recode E blob = blob)
    (haccepted : acceptNewBlock E chainView header hashPreimage
      unspentForCoinName coinbaseReward timestamp = .ok (additions, removals))
    (hcoins : removedCoins E additions removals hashPreimage = .ok coins) :
    (coins.Nodup ∧ coins.map (Coin.name E) = removals) ↔
      ∀ name ∈ removals, name ∉ additions.map (Coin.name E) →
        ∀ blob, hashPreimage name = some blob → MinimalAmount E blob := by
  obtain ⟨-, body, -, a, rfl, rfl⟩ :=
    (acceptNewBlock_eq_ok_iff E).mp haccepted
  have hresolved := Except.mapM_eq_ok_iff.mp hcoins
  constructor
  · rintro ⟨-, hnames⟩ name hname hadded blob hblob
    rw [← hnames, List.forall₂_map_left_iff, List.forall₂_same] at hresolved
    rw [← hnames] at hname
    obtain ⟨coin, hcoin, rfl⟩ := List.mem_map.mp hname
    rcases coinPointerObj_overlay E hE a.additions_nodup
      (hresolved coin hcoin) with ⟨hmem, -⟩ | ⟨-, blob', hblob', hread⟩
    · exact absurd (List.mem_map.mpr ⟨coin, hmem, rfl⟩) hadded
    · obtain rfl : blob = blob' := Option.some.inj (hblob.symm.trans hblob')
      rw [← recode_eq_iff]
      apply hcollision _ blob hblob
      rw [← Coin.bytes_of_fromBytes E hread]
      exact (hcontract _ blob hblob).symm
  · intro hminimal
    have hnames : coins.map (Coin.name E) = a.removals := by
      have hmembers := (List.forall₂_and_left a.removals coins).mpr
        ⟨fun _ hname => hname, hresolved⟩
      have heq : List.Forall₂ (fun name coin => name = coin.name E) a.removals
          coins := by
        refine hmembers.imp fun name coin ⟨hname, hobj⟩ => ?_
        rcases coinPointerObj_overlay E hE a.additions_nodup hobj with
          ⟨-, hcoin⟩ | ⟨hadded, blob, hblob, hread⟩
        · exact hcoin.symm
        · have hrecode := (recode_eq_iff E blob).mpr
            (hminimal name hname hadded blob hblob)
          unfold Coin.name
          rw [Coin.bytes_of_fromBytes E hread, hrecode]
          exact (hcontract name blob hblob).symm
      rw [← List.forall₂_map_right_iff, List.forall₂_eq_eq_eq] at heq
      exact heq.symm
    refine ⟨List.Nodup.of_map (Coin.name E) ?_, hnames⟩
    rw [hnames]
    exact a.removals_nodup

namespace Reference

def smallCoin : Coin :=
  ⟨indexHash 1, puzzleHash [], 5⟩

/-- The small coin with its amount in two bytes instead of one. -/
def paddedBlob : Bytes :=
  smallCoin.parentCoinInfo.1 ++ smallCoin.puzzleHash.1 ++ [0, 5]

def storageOf (blobs : List Bytes) : Database :=
  blobs.foldr (fun blob db => db.addPreimage environment blob) Database.ramDB

theorem storageOf_contract (blobs : List Bytes) :
    StorageContract environment (storageOf blobs).hashPreimage := by
  have hkeyed : (storageOf blobs).Keyed environment := by
    induction blobs with
    | nil => exact Database.keyed_ramDB environment
    | cons blob rest ih => exact ih.addPreimage environment blob
  intro hash blob hblob
  exact (hkeyed.stdHash_of_hashPreimage environment hblob).1.symm

def smallCoinUnspent (name : Bytes32) : Option Unspent :=
  if name = smallCoin.name environment then some ⟨1, 0⟩ else none

def secondView : ChainView :=
  ⟨ledgerGenesisHash, ⟨SizedBytes.fill 32 9, none⟩, EORSignature.zero, 1, 0⟩

def secondAdditions (fees : ℤ) : List Coin :=
  [⟨indexHash 2, SizedBytes.fill 32 3, blockReward⟩,
    ⟨indexHash 2, SizedBytes.fill 32 4, fees⟩]

def secondBlock (fees : ℤ) (removals : List Bytes32) : Header :=
  header secondView.tipHash <| body
    ⟨indexHash 2, SizedBytes.fill 32 3, blockReward⟩
    ⟨indexHash 2, SizedBytes.fill 32 4, fees⟩
    (removals.map fun name => spend name [])

end Reference

open Reference in
theorem acceptNewBlock_removedCoins_iff_small :
    ([smallCoin].Nodup ∧ [smallCoin].map (Coin.name environment) =
        [smallCoin.name environment]) ↔
      ∀ name ∈ [smallCoin.name environment],
        name ∉ (secondAdditions 5).map (Coin.name environment) →
        ∀ blob, (storageOf [smallCoin.bytes environment]).hashPreimage name =
          some blob → MinimalAmount environment blob :=
  acceptNewBlock_removedCoins_iff environment environment_lawful secondView
    (secondBlock 5 [smallCoin.name environment])
    (storageOf [smallCoin.bytes environment]).hashPreimage smallCoinUnspent
    blockReward 0 (secondAdditions 5) [smallCoin.name environment] [smallCoin]
    (storageOf_contract _)
    (by
      intro name blob hblob _
      have hmem : blob ∈ [smallCoin.bytes environment] :=
        Dict.mem_values_of_get hblob
      obtain rfl := List.mem_singleton.mp hmem
      exact (Coin.bytes_of_fromBytes environment
        (Coin.fromBytes_bytes environment environment_lawful smallCoin)).symm)
    (Except.toOption_eq_some_iff.mp (by decide +kernel))
    (Except.toOption_eq_some_iff.mp (by decide +kernel))

open Reference in
/-- One coin is counted twice: its two blobs have different hashes. -/
theorem acceptNewBlock_counts_coin_twice :
    ¬ (StorageContract environment
          (storageOf [smallCoin.bytes environment, paddedBlob]).hashPreimage →
        ∀ additions removals coins,
          acceptNewBlock environment secondView
              (secondBlock 10
                [smallCoin.name environment, environment.stdHash paddedBlob])
              (storageOf [smallCoin.bytes environment,
                paddedBlob]).hashPreimage
              smallCoinUnspent blockReward 0 = .ok (additions, removals) →
          removedCoins environment additions removals
              (storageOf [smallCoin.bytes environment,
                paddedBlob]).hashPreimage = .ok coins →
          coins.Nodup ∧ coins.map (Coin.name environment) = removals) := by
  intro hdistinct
  have haccepted : acceptNewBlock environment secondView
      (secondBlock 10
        [smallCoin.name environment, environment.stdHash paddedBlob])
      (storageOf [smallCoin.bytes environment, paddedBlob]).hashPreimage
      smallCoinUnspent blockReward 0 = .ok (secondAdditions 10,
        [smallCoin.name environment, environment.stdHash paddedBlob]) :=
    Except.toOption_eq_some_iff.mp (by decide +kernel)
  have hcoins : removedCoins environment (secondAdditions 10)
      [smallCoin.name environment, environment.stdHash paddedBlob]
      (storageOf [smallCoin.bytes environment, paddedBlob]).hashPreimage =
        .ok [smallCoin, smallCoin] :=
    Except.toOption_eq_some_iff.mp (by decide +kernel)
  have hnodup := (hdistinct (storageOf_contract _) _ _ _ haccepted hcoins).1
  simp at hnodup

end LedgerSim
