import LedgerSim.MadeConditions
import LedgerSim.WalletCoins

/-!
# Payments

The keys, the puzzles and the bundles of the sample wallet.  What `spend_coin`
makes of a confirmed coin is signed, creates the coins that its conditions
name, and is accepted when the ledger finds the conditions to hold.
-/

namespace LedgerSim

variable {E : Environment}

/-! ## Keys -/

/-- `blspy.ExtendedPrivateKey`, by what its children give. -/
structure ExtendedPrivateKey (secrets : SecretKeys E) where
  /-- `private_child(index).get_private_key()` -/
  childPrivateKey : ℕ → secrets.PrivateKey
  /-- `private_child(index).get_public_key()` -/
  childPublicKey : ℕ → E.BlsPublicKey
  /-- `PrivateKey.serialize` -/
  serialize : secrets.PrivateKey → Bytes32

section Keys

variable {secrets : SecretKeys E}

/-- The documented behaviour of `blspy`. -/
structure ExtendedPrivateKey.Lawful (key : ExtendedPrivateKey secrets) :
    Prop where
  private_read : ∀ index,
    secrets.fromBytes (key.serialize (key.childPrivateKey index)) =
      .ok (key.childPrivateKey index)
  public_child : ∀ index, key.childPublicKey index =
    secrets.getPublicKey (key.childPrivateKey index)
  exponent_lt : ∀ index,
    (BigEndian.toNat (key.serialize (key.childPrivateKey index)).1 : ℤ) <
      groupOrder

variable (tools : PuzzleTools)
  (hierarchicalPrivateKey : ExtendedPrivateKey secrets)

def blsPrivateKeyForIndex (index : ℕ) : Except Exn secrets.PrivateKey :=
  (secrets.fromBytes (hierarchicalPrivateKey.serialize
    (hierarchicalPrivateKey.childPrivateKey index))).mapError Exn.raised

def publicKeyBytesForIndex (index : ℕ) : Bytes48 :=
  secrets.serializePublicKey (hierarchicalPrivateKey.childPublicKey index)

def puzzleProgramForIndex (index : ℕ) : Program :=
  P2DelegatedPuzzle.puzzleForPk tools
    (publicKeyBytesForIndex hierarchicalPrivateKey index).1

def puzzleHashForIndex (index : ℕ) : Bytes32 :=
  E.treeHash (puzzleProgramForIndex tools hierarchicalPrivateKey index)

def makeDefaultKeychain : Except Exn (Keychain secrets) := do
  let privateKeys ← (List.range 10).mapM
    (blsPrivateKeyForIndex hierarchicalPrivateKey)
  let secretExponents := privateKeys.map fun privateKey =>
    (BigEndian.toNat (hierarchicalPrivateKey.serialize privateKey).1 : ℤ)
  let (added, keychain) :=
    (Keychain.addSecretExponents secretExponents).run .empty
  added.map fun _ => keychain

/-- `spend_coin`; `build_spend_bundle` is a method of the keychain. -/
def spendCoin (coin : Coin) (conditions : List MadeCondition) (index : ℕ)
    (keychain : Keychain secrets) : Except Exn SpendBundle := do
  let solution ← P2DelegatedPuzzle.solutionForConditions E tools
    (puzzleProgramForIndex tools hierarchicalPrivateKey index)
    (programOfConditions E conditions)
  keychain.buildSpendBundle coin solution

end Keys

/-! ## The default keychain -/

namespace Keychain

variable {secrets : SecretKeys E}

theorem get_insert (self : Keychain secrets) (privateKey : secrets.PrivateKey)
    (publicKey : Bytes48) :
    (self.insert privateKey).entries.get publicKey =
      if publicKey = BLSPrivateKey.publicKey secrets privateKey then
        some privateKey
      else self.entries.get publicKey :=
  Dict.get_set _ _ _ _

/-- Every key is added, and none is lost. -/
theorem exists_addSecretExponents {secretExponents : List ℤ}
    {privateKeys : List secrets.PrivateKey}
    (hkeys : List.Forall₂ (fun secretExponent privateKey =>
      BLSPrivateKey.fromSecretExponent secrets secretExponent =
        .ok privateKey) secretExponents privateKeys)
    (self : Keychain secrets) :
    ∃ keychain, (addSecretExponents secretExponents).run self =
        (.ok (), keychain) ∧
      ∀ publicKey, (∃ privateKey ∈ privateKeys,
          BLSPrivateKey.publicKey secrets privateKey = publicKey) ∨
        self.entries.get publicKey ≠ none →
          keychain.entries.get publicKey ≠ none := by
  induction hkeys generalizing self with
  | nil => exact ⟨self, rfl, fun publicKey h => h.resolve_left (by simp)⟩
  | @cons secretExponent privateKey _ _ hkey _ ih =>
      obtain ⟨keychain, hrun, hknown⟩ := ih (self.insert privateKey)
      refine ⟨keychain, ?_, fun publicKey h => hknown publicKey ?_⟩
      · have hfirst : (do
            let privateKey ← Exec.ofExcept
              (BLSPrivateKey.fromSecretExponent secrets secretExponent)
            Exec.modify fun self : Keychain secrets =>
              self.insert privateKey).run self =
              (.ok (), self.insert privateKey) := by
          rw [hkey]
          rfl
        exact (Exec.run_bind_of_ok hfirst _).trans hrun
      · rw [get_insert]
        rcases h with ⟨key, hmem, hpublic⟩ | hold
        · rcases List.mem_cons.mp hmem with rfl | hrest
          · exact .inr (by simp [hpublic])
          · exact .inl ⟨key, hrest, hpublic⟩
        · apply Or.inr
          split_ifs
          · simp
          · exact hold

end Keychain

section Spending

variable {secrets : SecretKeys E} {tools : PuzzleTools}
  {hierarchicalPrivateKey : ExtendedPrivateKey secrets}

/-- A key below the group order survives its exponent. -/
theorem fromSecretExponent_toNat {blob : Bytes32}
    (hlt : (BigEndian.toNat blob.1 : ℤ) < groupOrder) :
    BLSPrivateKey.fromSecretExponent secrets (BigEndian.toNat blob.1) =
      (secrets.fromBytes blob).mapError Exn.raised := by
  have hblob : (⟨BigEndian.ofNat 32
      ((BigEndian.toNat blob.1 : ℤ) % groupOrder).toNat,
      BigEndian.length_ofNat _ _⟩ : Bytes32) = blob := by
    apply Subtype.ext
    have h := BigEndian.ofNat_toNat blob.1
    rw [blob.2] at h
    rw [Int.emod_eq_of_lt (Int.natCast_nonneg _) hlt, Int.toNat_natCast]
    exact h
  unfold BLSPrivateKey.fromSecretExponent
  dsimp only
  rw [hblob]

/-- The default keychain signs for the first ten indices. -/
theorem exists_makeDefaultKeychain (hkeys : hierarchicalPrivateKey.Lawful) :
    ∃ keychain, makeDefaultKeychain hierarchicalPrivateKey = .ok keychain ∧
      ∀ index < 10, keychain.entries.get
        (publicKeyBytesForIndex hierarchicalPrivateKey index) ≠ none := by
  let children := (List.range 10).map hierarchicalPrivateKey.childPrivateKey
  have hread : (List.range 10).mapM
      (blsPrivateKeyForIndex hierarchicalPrivateKey) = .ok children := by
    rw [Except.mapM_eq_ok_iff, List.forall₂_map_right_iff, List.forall₂_same]
    intro index _
    unfold blsPrivateKeyForIndex
    rw [hkeys.private_read]
    rfl
  have hexponents : List.Forall₂ (fun secretExponent privateKey =>
      BLSPrivateKey.fromSecretExponent secrets secretExponent =
        .ok privateKey)
      (children.map fun privateKey => (BigEndian.toNat
        (hierarchicalPrivateKey.serialize privateKey).1 : ℤ)) children := by
    rw [List.forall₂_map_left_iff, List.forall₂_same]
    intro privateKey hmem
    obtain ⟨index, -, rfl⟩ := List.mem_map.mp hmem
    rw [fromSecretExponent_toNat (hkeys.exponent_lt index),
      hkeys.private_read]
    rfl
  obtain ⟨keychain, hrun, hknown⟩ :=
    Keychain.exists_addSecretExponents hexponents .empty
  refine ⟨keychain, Except.bind_eq_ok hread ?_, ?_⟩
  · dsimp only
    rw [hrun]
    rfl
  · intro index hindex
    apply hknown
    refine .inl ⟨_, List.mem_map_of_mem (List.mem_range.mpr hindex), ?_⟩
    unfold publicKeyBytesForIndex
    rw [hkeys.public_child]
    rfl

/-! ## The bundle of a payment -/

variable (tools hierarchicalPrivateKey) in
/-- The solution reveals the puzzle of the index and delegates to the quoted
conditions. -/
def paymentSolution (index : ℕ) (calls : List MakerCall) : Program :=
  .ofList [puzzleProgramForIndex tools hierarchicalPrivateKey index,
    .ofList [conditionsToSexp E (calls.map MakerCall.make), .null]]

variable (hierarchicalPrivateKey) in
/-- The signature that the puzzle asks for, and the conditions. -/
def paymentConditions (index : ℕ) (calls : List MakerCall) : List Condition :=
  ⟨ConditionOpcode.aggSig.value,
    [.bytes (publicKeyBytesForIndex hierarchicalPrivateKey index).1,
      .bytes (E.treeHash
        (conditionsToSexp E (calls.map MakerCall.make))).1]⟩ ::
    calls.map fun call => call.make.read E

theorem conditionsForSolution_payment (hE : E.Lawful) (hread : ReadsLists E)
    (htools : tools.Lawful E) (index : ℕ) (calls : List MakerCall) :
    conditionsForSolution E
        (paymentSolution tools hierarchicalPrivateKey index calls) =
      .ok (paymentConditions hierarchicalPrivateKey index calls) := by
  unfold paymentSolution conditionsToSexp puzzleProgramForIndex
  rw [P2DelegatedPuzzle.conditionsForSolution_eq hE htools hread,
    parse_programOfConditions hread, List.map_map]
  rfl

theorem opcode_make_ne_aggSig (call : MakerCall) :
    (call.make.read E).opcode ≠ ConditionOpcode.aggSig.value := by
  cases call <;> exact nofun

/-- A keychain with the key of the index makes the bundle. -/
theorem exists_spendCoin (hE : E.Lawful) (hread : ReadsLists E)
    (htools : tools.Lawful E) (laws : SigningLaws secrets)
    {keychain : Keychain secrets} {index : ℕ}
    (hknown : keychain.entries.get
      (publicKeyBytesForIndex hierarchicalPrivateKey index) ≠ none)
    (coin : Coin) (calls : List MakerCall) :
    ∃ tx, spendCoin tools hierarchicalPrivateKey coin
        (calls.map MakerCall.make) index keychain = .ok tx ∧
      tx.coinSolutions = [⟨coin,
        paymentSolution tools hierarchicalPrivateKey index calls⟩] ∧
      tx.Signed secrets := by
  have hconditions := @conditionsForSolution_payment E secrets
    tools hierarchicalPrivateKey hE hread htools index calls
  obtain ⟨signature, hsignature⟩ : ∃ signature,
      keychain.signatureForSolution (paymentSolution tools
        hierarchicalPrivateKey index calls) = .ok signature := by
    apply (Keychain.signatureForSolution_ok_iff hconditions ?_ laws).mpr
    · intro condition hcondition hmisses
      rcases List.mem_cons.mp hcondition with rfl | hcalled
      · obtain ⟨-, publicKey, rest, harguments, hmissing⟩ := hmisses
        exact hknown (hmissing _ (PyVal.bytes.inj (List.cons.inj harguments).1))
      · obtain ⟨call, -, rfl⟩ := List.mem_map.mp hcalled
        exact opcode_make_ne_aggSig call hmisses.1
    · intro condition hcondition hopcode
      rcases List.mem_cons.mp hcondition with rfl | hcalled
      · exact ⟨_, _, rfl⟩
      · obtain ⟨call, -, rfl⟩ := List.mem_map.mp hcalled
        exact absurd hopcode (opcode_make_ne_aggSig call)
  have hbuilt : keychain.buildSpendBundle coin
      (paymentSolution tools hierarchicalPrivateKey index calls) =
        .ok ⟨[⟨coin, _⟩], signature⟩ :=
    Except.bind_eq_ok hsignature rfl
  refine ⟨_, ?_, rfl, .of_buildSpendBundle laws hbuilt⟩
  exact Except.bind_eq_ok (P2DelegatedPuzzle.solutionForConditions_eq htools
    _ _) hbuilt

/-! ## What the ledger reads from it -/

/-- The entry that a payment stands for. -/
theorem npcEntry_payment (hE : E.Lawful) (hread : ReadsLists E)
    (htools : tools.Lawful E) (coin : Coin) {index : ℕ}
    (hdeep : ¬ E.TooDeep
      (puzzleProgramForIndex tools hierarchicalPrivateKey index))
    (calls : List MakerCall) :
    npcEntry E (solutionEntry E ⟨coin,
        paymentSolution tools hierarchicalPrivateKey index calls⟩) =
      .ok ⟨coin.name E, puzzleHashForIndex tools hierarchicalPrivateKey index,
        conditionsByOpcode
          (paymentConditions hierarchicalPrivateKey index calls)⟩ := by
  have hdict : conditionsDictForSolution E
      (paymentSolution tools hierarchicalPrivateKey index calls) =
        .ok (conditionsByOpcode
          (paymentConditions hierarchicalPrivateKey index calls)) :=
    Except.bind_eq_ok
      (conditionsForSolution_payment hE hread htools index calls) rfl
  obtain ⟨⟨coinName, puzzleHash, conditionsDict⟩, hnpc⟩ :=
    @exists_npcEntry_solutionEntry E hE
      (fun x y => hread.asPython_list x [y]) ⟨coin, _⟩ _ _ _ rfl hdeep hdict
  obtain ⟨hname, ⟨puzzle, hpuzzle, hhash⟩, hdict'⟩ :=
    npcEntry_solutionEntry E hE hnpc
  have hrevealed := Except.ok.inj hpuzzle
  have hsame := Except.ok.inj (hdict.symm.trans hdict')
  dsimp only at hname hhash hsame
  apply hnpc.trans
  rw [hname, hhash, ← hrevealed, ← hsame]
  rfl

theorem createdOutputs_payment (hE : E.Lawful) (index : ℕ)
    (calls : List MakerCall) (inputCoinName : Bytes32) :
    createdOutputsForConditionsDict E (conditionsByOpcode
        (paymentConditions hierarchicalPrivateKey index calls))
        inputCoinName =
      .ok (paymentCoins (paymentsOf calls) inputCoinName) := by
  unfold createdOutputsForConditionsDict paymentConditions
  rw [get_conditionsByOpcode,
    List.filter_cons_of_neg (by simp [ConditionOpcode.value]),
    filter_createCoin_read, Except.mapM_eq_ok_iff, List.forall₂_map_left_iff]
  unfold paymentCoins
  rw [List.forall₂_map_right_iff, List.forall₂_same]
  exact fun payment _ => createdOutput_read hE inputCoinName _ _

/-- The ledger checks what the makers were asked for, and nothing else. -/
theorem checkConditionsDict_payment_iff (hE : E.Lawful) {coin : Coin}
    {context : ConditionContext} {confirmed : ℕ}
    (hconfirmed : context.confirmed E coin = some confirmed) (index : ℕ)
    (calls : List MakerCall) :
    checkConditionsDict E coin (conditionsByOpcode
        (paymentConditions hierarchicalPrivateKey index calls)) context =
        .ok () ↔
      ∀ call ∈ calls, call.Met E context.removals context.blockIndex confirmed
        context.creationTime coin := by
  rw [checkConditionsDict_ok_iff]
  unfold paymentConditions ConditionContext.Permits
  rw [List.forall_mem_cons, List.forall_mem_map, hconfirmed]
  simp only [MakerCall.holds_iff hE]
  rw [and_iff_right]
  constructor <;> exact nofun

theorem additions_payment (hE : E.Lawful) (hread : ReadsLists E)
    (htools : tools.Lawful E) {tx : SpendBundle} {coin : Coin} {index : ℕ}
    {calls : List MakerCall} (htx : tx.coinSolutions = [⟨coin,
      paymentSolution tools hierarchicalPrivateKey index calls⟩]) :
    tx.additions E =
      .ok (paymentCoins (paymentsOf calls) (coin.name E)) := by
  have hadditions : SpendBundle.additionsForSolution E (coin.name E)
      (paymentSolution tools hierarchicalPrivateKey index calls) =
        .ok (paymentCoins (paymentsOf calls) (coin.name E)) :=
    Except.bind_eq_ok (Except.bind_eq_ok
      (conditionsForSolution_payment hE hread htools index calls) rfl)
      (createdOutputs_payment hE index calls _)
  have hall : tx.coinSolutions.mapM (fun claim =>
      SpendBundle.additionsForSolution E (claim.coin.name E)
        claim.solution) =
        .ok [paymentCoins (paymentsOf calls) (coin.name E)] := by
    rw [htx]
    exact Except.mapM_eq_ok_iff.mpr (.cons hadditions .nil)
  unfold SpendBundle.additions
  rw [hall]
  simp [Except.ok_bind]

/-! ## When a payment is accepted -/

variable (E) in
/-- What decides on a payment out of a confirmed coin: what its conditions ask
for, the pending bundles, and the limits of a block. -/
structure PaymentFits (server : LedgerAPI) (coin : Coin) (confirmed : ℕ)
    (calls : List MakerCall) (tx : SpendBundle) : Prop where
  distinct : (paymentsOf calls).Nodup
  met : ∀ call ∈ calls, call.Met E (claimedNames E (server.claimsWith tx))
    (server.chainView.tipIndex + 1) confirmed server.now coin
  joins : Joins E server tx
  streams : ∀ claim ∈ tx.coinSolutions, E.Streams (solutionEntry E claim)
  shallow : ∀ claim ∈ tx.coinSolutions, ∀ puzzle,
    claim.solution.first = .ok puzzle → ¬ E.TooDeep puzzle
  index_lt : server.chainView.tipIndex + 1 < 256 ^ 32
  now_lt : server.now < clockLimit

theorem MakerCall.Met.mono {removals removals' : List Bytes32}
    {blockIndex confirmed : ℕ} {time : ℤ} {coin : Coin} {call : MakerCall}
    (hsub : removals ⊆ removals')
    (h : call.Met E removals blockIndex confirmed time coin) :
    call.Met E removals' blockIndex confirmed time coin := by
  cases call with
  | assertCoinConsumed coinName => exact hsub h
  | _ => exact h

theorem paymentCoins_nodup_iff {payments : List (Bytes32 × ℤ)}
    {inputCoinName : Bytes32} :
    (paymentCoins payments inputCoinName).Nodup ↔ payments.Nodup := by
  apply List.nodup_map_iff
  rintro ⟨puzzleHash, amount⟩ ⟨puzzleHash', amount'⟩ h
  cases h
  rfl

theorem map_amount_paymentCoins (payments : List (Bytes32 × ℤ))
    (inputCoinName : Bytes32) :
    (paymentCoins payments inputCoinName).map Coin.amount =
      payments.map Prod.snd := by
  unfold paymentCoins
  rw [List.map_map]
  rfl

section Accepting

variable {server : LedgerAPI} {coin : Coin} {unspent : Unspent}
  {calls : List MakerCall} {index : ℕ} {tx : SpendBundle}
  {rewards : List Coin} {removals : List Bytes32}

/-- The only spend of a payment passes, if its conditions are met. -/
theorem passes_payment (hE : E.Lawful)
    (hrecord : server.db.unspentForCoinName (coin.name E) = some unspent)
    (hpuzzle : coin.puzzleHash =
      puzzleHashForIndex tools hierarchicalPrivateKey index)
    (hmet : ∀ call ∈ calls, call.Met E removals
      (server.chainView.tipIndex + 1) unspent.confirmedBlockIndex server.now
      coin) :
    server.Passes E removals ⟨coin,
        paymentSolution tools hierarchicalPrivateKey index calls⟩
      ⟨coin.name E, puzzleHashForIndex tools hierarchicalPrivateKey index,
        conditionsByOpcode
          (paymentConditions hierarchicalPrivateKey index calls)⟩ where
  coinName := rfl
  puzzleHash := hpuzzle.symm
  checks context hcontext := by
    have hconfirmed := hcontext.confirmed
    unfold LedgerAPI.confirmedAt at hconfirmed
    rw [hrecord] at hconfirmed
    apply (checkConditionsDict_payment_iff hE hconfirmed index calls).mpr
    intro call hcall
    rw [hcontext.blockIndex, hcontext.creationTime]
    exact (hmet call hcall).mono hcontext.removals

/-- The spends of the bundle of a payment. -/
theorem exists_jointSpends_payment (hE : E.Lawful) (hread : ReadsLists E)
    (htools : tools.Lawful E) (hdeep : ¬ E.TooDeep
      (puzzleProgramForIndex tools hierarchicalPrivateKey index))
    (hconfirmed : server.Confirmed E coin)
    (hmaximum : coin.amount < maxCoinAmount)
    (hrecord : server.db.unspentForCoinName (coin.name E) = some unspent)
    (hpuzzle : coin.puzzleHash =
      puzzleHashForIndex tools hierarchicalPrivateKey index)
    (hamounts : ∀ payment ∈ paymentsOf calls, 0 ≤ payment.2)
    (hsum : ((paymentsOf calls).map Prod.snd).sum ≤ coin.amount)
    (hdistinct : (paymentsOf calls).Nodup)
    (hmet : ∀ call ∈ calls, call.Met E removals
      (server.chainView.tipIndex + 1) unspent.confirmedBlockIndex server.now
      coin) :
    ∃ s : JointSpends E server rewards removals [⟨coin,
        paymentSolution tools hierarchicalPrivateKey index calls⟩],
      s.outputs = paymentCoins (paymentsOf calls) (coin.name E) := by
  have hnpc := @npcEntry_payment E secrets tools hierarchicalPrivateKey hE
    hread htools coin index hdeep calls
  have houtputs := @createdOutputs_payment E secrets hierarchicalPrivateKey hE
    index calls (coin.name E)
  refine ⟨{
    npcList := [_]
    outputs := paymentCoins (paymentsOf calls) (coin.name E)
    npcList_eq := Except.mapM_eq_ok_iff.mpr (.cons hnpc .nil)
    outputs_eq := ?_
    amounts := ?_
    outputs_nodup := paymentCoins_nodup_iff.mpr hdistinct
    claims_nodup := List.nodup_singleton _
    passes := .cons (passes_payment hE hrecord hpuzzle hmet) .nil
    spendable := ?_ }, rfl⟩
  · have hall : [(⟨coin.name E,
          puzzleHashForIndex tools hierarchicalPrivateKey index,
          conditionsByOpcode
            (paymentConditions hierarchicalPrivateKey index calls)⟩ :
          Npc)].mapM (fun npc => createdOutputsForConditionsDict E
        npc.conditionsDict npc.coinName) =
          .ok [paymentCoins (paymentsOf calls) (coin.name E)] :=
      Except.mapM_eq_ok_iff.mpr (.cons houtputs .nil)
    unfold createdOutputs
    rw [hall]
    simp [Except.ok_bind]
  · intro created hcreated
    obtain ⟨payment, hpayment, rfl⟩ := List.mem_map.mp hcreated
    have hnonneg : ∀ amount ∈ (paymentsOf calls).map Prod.snd,
        0 ≤ amount := by
      rw [List.forall_mem_map]
      exact hamounts
    have hle := List.single_le_sum hnonneg payment.2
      (List.mem_map_of_mem hpayment)
    exact (hle.trans hsum).trans_lt hmaximum
  · intro claim hclaim
    rw [List.mem_singleton.mp hclaim]
    exact .inr hconfirmed

end Accepting

namespace LedgerAPI

variable (E) in
/-- What the run, the next dry run and the payment show to the hash
function. -/
def paymentBlobs (requests : List Request) (tx : SpendBundle)
    (outputs : List Coin) : List Bytes :=
  outputs.map (Coin.bytes E) ++ (knownBlobs E (requests ++ [.pushTx tx]) ++
    ((run E requests).dryRunRewards E ((run E requests).claimsWith tx)).map
      (Coin.bytes E))

theorem knownBlobs_subset_paymentBlobs {requests : List Request}
    {tx : SpendBundle} {outputs : List Coin} :
    knownBlobs E (requests ++ [.pushTx tx]) ⊆
      paymentBlobs E requests tx outputs :=
  fun _ hblob => List.mem_append_right _ (List.mem_append_left _ hblob)

variable {requests : List Request} {coin : Coin} {unspent : Unspent}
  {calls : List MakerCall} {index : ℕ} {tx : SpendBundle} {blobs : List Bytes}

theorem paymentFits_of_accepted (hE : E.Lawful) (hpairs : E.StreamsPairs)
    (hread : ReadsLists E) (htools : tools.Lawful E)
    (hhash : HashAssumptions E blobs (run E requests).chainView.tipIndex)
    (hknown : knownBlobs E (requests ++ [.pushTx tx]) ⊆ blobs)
    (htx : tx.coinSolutions = [⟨coin,
      paymentSolution tools hierarchicalPrivateKey index calls⟩])
    (hrecord : (run E requests).db.unspentForCoinName (coin.name E) =
      some unspent)
    (haccepted : ((handle E (.pushTx tx)).run (run E requests)).1 =
      .ok (.accepted tx)) :
    PaymentFits E (run E requests) coin unspent.confirmedBlockIndex calls
      tx := by
  obtain ⟨f, a, -, -, hcovers, hclaims⟩ :=
    exists_dryRun_of_pushTx_accepted hE hhash hknown haccepted
  have hclaim : ⟨coin,
      paymentSolution tools hierarchicalPrivateKey index calls⟩ ∈
        f.claims := by
    rw [hclaims, claimsWith, htx]
    exact List.mem_append_right _ (List.mem_singleton_self _)
  obtain ⟨npc, hnpc, -, -, hcheck, hentry, cpc, hcpc, hcoin⟩ :=
    (f.checked_claims hE hhash.collisionFree a hcovers).exists_of_mem_left
      hclaim
  obtain rfl := Except.ok.inj (hentry.symm.trans
    (npcEntry_payment hE hread htools coin
      (not_tooDeep_of_npcEntry hentry rfl) calls))
  refine ⟨?_, ?_, joins_of_pushTx_accepted hE hhash hknown haccepted, ?_, ?_,
    f.index_lt, f.now_lt⟩
  -- the payments are part of the outputs, which differ
  · have hnodup := List.Nodup.of_map _ a.additions_nodup
    have houtputs := (List.nodup_cons.mp (List.nodup_cons.mp hnodup).2).2
    obtain ⟨lists, hlists, hflatten⟩ := Except.bind_eq_ok_iff.mp a.outputs_eq
    obtain ⟨created, hcreated, hpayments⟩ :=
      Except.exists_of_mapM_eq_ok hlists hnpc
    obtain rfl := Except.ok.inj
      (hpayments.symm.trans (createdOutputs_payment hE index calls _))
    rw [← Except.ok.inj hflatten] at houtputs
    exact paymentCoins_nodup_iff.mp
      (houtputs.sublist (List.sublist_flatten_of_mem hcreated))
  · have hconfirmed : a.context.confirmed E coin =
        some unspent.confirmedBlockIndex := by
      have hget := coinToUnspent_get_of_mem E
        (overlay (run E requests).db.unspentForCoinName
          (ramUnspentDB E a.additions
            ((run E requests).chainView.tipIndex + 1)).get) hcpc
      rw [hcoin, overlay_of_top hrecord] at hget
      simp [ConditionContext.confirmed, AcceptedBody.context, hget]
    have hremovals : a.context.removals =
        claimedNames E ((run E requests).claimsWith tx) := by
      rw [← hclaims]
      exact f.removals_eq hE a
    rw [← hremovals]
    exact (checkConditionsDict_payment_iff hE hconfirmed index calls).mp hcheck
  · have hbody := (exists_farmedBody_bytes_iff E).mp ⟨_, f.body_bytes⟩
    have hprogram := (streams_program_iff hE hpairs).mp hbody.2
    rw [f.coinSolutions_eq, hclaims] at hprogram
    exact fun claim hclaim =>
      hprogram claim (List.mem_append_right _ hclaim)
  · rw [htx]
    intro claim hclaim puzzle hpuzzle
    obtain rfl := List.mem_singleton.mp hclaim
    exact not_tooDeep_of_npcEntry hentry hpuzzle

theorem pushTx_accepted_of_paymentFits (hE : E.Lawful)
    (hpairs : E.StreamsPairs) (hread : ReadsLists E) (htools : tools.Lawful E)
    (laws : SigningLaws secrets)
    (hsigned : ∀ bundle ∈ tx :: (run E requests).spendBundles,
      bundle.Signed secrets)
    (htx : tx.coinSolutions = [⟨coin,
      paymentSolution tools hierarchicalPrivateKey index calls⟩])
    (hhash : HashAssumptions E (paymentBlobs E requests tx
        (paymentCoins (paymentsOf calls) (coin.name E)))
      (run E requests).chainView.tipIndex)
    (hrecord : (run E requests).db.unspentForCoinName (coin.name E) =
      some unspent)
    (hspendable : unspent.Spendable (run E requests).chainView.tipIndex)
    (hpuzzle : coin.puzzleHash =
      puzzleHashForIndex tools hierarchicalPrivateKey index)
    (hamounts : ∀ payment ∈ paymentsOf calls, 0 ≤ payment.2)
    (hsum : ((paymentsOf calls).map Prod.snd).sum ≤ coin.amount)
    (h : PaymentFits E (run E requests) coin unspent.confirmedBlockIndex calls
      tx) :
    ((handle E (.pushTx tx)).run (run E requests)).1 =
      .ok (.accepted tx) := by
  have hknown := @knownBlobs_subset_paymentBlobs E requests tx
    (paymentCoins (paymentsOf calls) (coin.name E))
  obtain ⟨htxSigned, hpending⟩ := List.forall_mem_cons.mp hsigned
  obtain ⟨-, -, hrecords⟩ := run_recordsStored hE hhash
    (fun blob hblob => hknown (knownBlobs_append _ _ hblob))
  obtain ⟨hconfirmed, hmaximum⟩ := hrecords.confirmed hE hhash.collisionFree
    (fun blob hblob => hknown
      (knownBlobs_append _ _ (List.mem_append_left _ hblob)))
    (claimsWith_known hknown ⟨coin, _⟩ (by
      rw [claimsWith, htx]
      exact List.mem_append_right _ (List.mem_singleton_self _)))
    hrecord hspendable
  have hdeep := h.shallow ⟨coin, _⟩
    (htx ▸ List.mem_singleton_self _) _ rfl
  obtain ⟨s, hs⟩ : ∃ s : JointSpends E (run E requests)
      ((run E requests).dryRunRewards E ((run E requests).claimsWith tx))
      (claimedNames E ((run E requests).claimsWith tx))
      [⟨coin, paymentSolution tools hierarchicalPrivateKey index calls⟩],
      s.outputs = paymentCoins (paymentsOf calls) (coin.name E) :=
    exists_jointSpends_payment hE hread htools hdeep hconfirmed hmaximum hrecord
      hpuzzle hamounts hsum h.distinct h.met
  obtain ⟨timestamp, hclock, hfits⟩ := clockSeconds_fits_iff.mpr h.now_lt
  apply pushTx_accepted_of_joins hE hpairs laws hhash hknown
    (fun reward hreward => List.mem_append_right _
      (List.mem_append_right _ (List.mem_map_of_mem hreward)))
    hpending h.index_lt hclock hfits _ h.joins
  refine ⟨htxSigned, h.streams, ?_, ?_⟩
  · rw [htx]
    refine ⟨_, s.claimedFees_eq hE, ?_⟩
    rw [hs, map_amount_paymentCoins]
    simpa using hsum
  · rw [htx]
    refine ⟨s, ?_⟩
    rw [hs]
    exact fun created hcreated =>
      List.mem_append_left _ (List.mem_map_of_mem hcreated)

/-- After any run, the wallet can pay out of a coin that the chain leaves
unspent and that is locked with one of its keys, and the bundle is accepted
exactly when its conditions are met and it joins the pending bundles. -/
theorem payment_accepted_iff (hE : E.Lawful) (hpairs : E.StreamsPairs)
    (hread : ReadsLists E) (htools : tools.Lawful E)
    (laws : SigningLaws secrets) (hkeys : hierarchicalPrivateKey.Lawful)
    (requests : List Request)
    (hsigned : ∀ bundle ∈ (run E requests).spendBundles,
      bundle.Signed secrets)
    {confirmed : ℕ} (hunspent : UnspentSince E (blocks E requests)
      (coin.name E) confirmed) (hindex : index < 10)
    (hpuzzle : coin.puzzleHash =
      puzzleHashForIndex tools hierarchicalPrivateKey index)
    (hamounts : ∀ payment ∈ paymentsOf calls, 0 ≤ payment.2)
    (hsum : ((paymentsOf calls).map Prod.snd).sum ≤ coin.amount) :
    ∃ tx, (do
        let keychain ← makeDefaultKeychain hierarchicalPrivateKey
        spendCoin tools hierarchicalPrivateKey coin
          (calls.map MakerCall.make) index keychain) = .ok tx ∧
      tx.additions E =
        .ok (paymentCoins (paymentsOf calls) (coin.name E)) ∧
      (HashAssumptions E (paymentBlobs E requests tx
            (paymentCoins (paymentsOf calls) (coin.name E)))
          (run E requests).chainView.tipIndex →
        (((handle E (.pushTx tx)).run (run E requests)).1 =
            .ok (.accepted tx) ↔
          PaymentFits E (run E requests) coin confirmed calls tx)) := by
  obtain ⟨keychain, hkeychain, hgets⟩ := exists_makeDefaultKeychain hkeys
  obtain ⟨tx, hspend, htx, htxSigned⟩ := exists_spendCoin hE hread htools laws
    (hgets index hindex) coin calls
  refine ⟨tx, Except.bind_eq_ok hkeychain hspend,
    additions_payment hE hread htools htx, fun hhash => ?_⟩
  have hknown := @knownBlobs_subset_paymentBlobs E requests tx
    (paymentCoins (paymentsOf calls) (coin.name E))
  obtain ⟨s, hs, -⟩ := exists_rehearsal hE requests hhash
    (fun blob hblob => hknown (knownBlobs_append _ _ hblob))
  obtain ⟨unspent, hrecord, rfl, hspendable⟩ :=
    Simulates.spendable_of_unspentSince hs hunspent
  constructor
  · exact paymentFits_of_accepted hE hpairs hread htools hhash hknown htx
      hrecord
  · exact pushTx_accepted_of_paymentFits hE hpairs hread htools laws
      (List.forall_mem_cons.mpr ⟨htxSigned, hsigned⟩) htx hhash hrecord
      hspendable hpuzzle hamounts hsum

end LedgerAPI

end Spending

/-! ## A payment of the reference wallet -/

namespace Reference

/-- A key with a small exponent, which is its public key as well. -/
def walletChild (index : ℕ) : Bytes48 :=
  ⟨BigEndian.ofNat 32 (index % 1000 + 1) ++ List.replicate 16 0, by simp⟩

def walletHierarchy : ExtendedPrivateKey walletSecrets where
  childPrivateKey := walletChild
  childPublicKey := walletChild
  serialize := fun privateKey : Bytes48 =>
    ⟨privateKey.1.take 32, by simp [privateKey.2]⟩

theorem take_walletChild (index : ℕ) :
    (walletChild index).1.take 32 = BigEndian.ofNat 32 (index % 1000 + 1) :=
  List.take_left' (BigEndian.length_ofNat _ _)

theorem serialize_walletChild (index : ℕ) :
    walletHierarchy.serialize (walletHierarchy.childPrivateKey index) =
      ⟨BigEndian.ofNat 32 (index % 1000 + 1), BigEndian.length_ofNat _ _⟩ :=
  Subtype.ext (take_walletChild index)

theorem walletHierarchy_lawful : walletHierarchy.Lawful where
  private_read index := by
    rw [serialize_walletChild]
    rfl
  public_child _ := rfl
  exponent_lt index := by
    have hle : index % 1000 + 1 ≤ 1000 := Nat.mod_lt index (by decide)
    rw [serialize_walletChild,
      BigEndian.toNat_ofNat_of_lt (hle.trans_lt (by decide))]
    exact (Int.ofNat_le.mpr hle).trans_lt (by decide)

/-- Every condition once: the payment goes with the pending bundle, and not
before the next block. -/
def walletCalls : List MakerCall :=
  [.createCoin (puzzleHash []) 5,
    .assertMyCoinId ((walletCoin 2).name walletEnvironment),
    .assertCoinConsumed ((walletCoin 1).name walletEnvironment),
    .assertBlockIndexExceeds 2, .assertBlockAgeExceeds 0,
    .assertTimeExceeds (-1)]

def walletPayment : SpendBundle :=
  (do
    let keychain ← makeDefaultKeychain walletHierarchy
    spendCoin puzzleTools walletHierarchy (walletCoin 2)
      (walletCalls.map MakerCall.make) 0 keychain).toOption.getD
        ⟨[], ⟨zero96⟩⟩

open LedgerAPI

/-- What the kernel evaluates of the payment and of the blocks before it. -/
theorem walletPayment_state :
    HashChecks walletEnvironment
        (paymentBlobs walletEnvironment twoRewards walletPayment
          (paymentCoins (paymentsOf walletCalls)
            ((walletCoin 2).name walletEnvironment)))
        (run walletEnvironment twoRewards).chainView.tipIndex ∧
      ((blocks walletEnvironment twoRewards)[1]?.map fun block =>
        (additionsForBody walletEnvironment block.2).toOption.map fun coins =>
          decide ((walletCoin 2).name walletEnvironment ∈
            coins.map (Coin.name walletEnvironment))) = some (some true) ∧
      ∀ block ∈ blocks walletEnvironment twoRewards,
        (removalsForBody walletEnvironment block.2).toOption = some [] := by
  decide +kernel

/-- The second reward of the wallet, by the blocks. -/
theorem walletCoin_unspentSince : UnspentSince walletEnvironment
    (blocks walletEnvironment twoRewards)
    ((walletCoin 2).name walletEnvironment) 2 := by
  obtain ⟨-, hcreated, hunspent⟩ := walletPayment_state
  constructor
  · obtain ⟨block, hblock, hcreated⟩ := Option.map_eq_some_iff.mp hcreated
    obtain ⟨additions, hadditions, hname⟩ :=
      Option.map_eq_some_iff.mp hcreated
    exact ⟨1, block, additions, hblock, rfl,
      Except.toOption_eq_some_iff.mp hadditions, of_decide_eq_true hname⟩
  · intro block hblock removals hremovals
    have hnil := Except.toOption_eq_some_iff.mp (hunspent block hblock)
    rw [Except.ok.inj (hremovals.symm.trans hnil)]
    exact List.not_mem_nil

end Reference

open Reference LedgerAPI in
theorem LedgerAPI.payment_accepted_iff_wallet :
    walletPayment.additions walletEnvironment =
        .ok (paymentCoins (paymentsOf walletCalls)
          ((walletCoin 2).name walletEnvironment)) ∧
      (((handle walletEnvironment (.pushTx walletPayment)).run
          (run walletEnvironment twoRewards)).1 =
            .ok (.accepted walletPayment) ↔
        PaymentFits walletEnvironment (run walletEnvironment twoRewards)
          (walletCoin 2) 2 walletCalls walletPayment) := by
  obtain ⟨tx, htx, hadditions, haccepted⟩ := payment_accepted_iff
    walletEnvironment_lawful walletEnvironment_streamsPairs
    walletEnvironment_readsLists puzzleTools_lawful_wallet walletSecrets_laws
    walletHierarchy_lawful twoRewards
    (List.forall_mem_cons.mp twoRewards_signed).2 walletCoin_unspentSince
    (show 0 < 10 by decide) (by decide +kernel)
    (show ∀ payment ∈ paymentsOf walletCalls, 0 ≤ payment.2 by decide)
    (by decide)
  have hpayment : walletPayment = tx := by
    unfold walletPayment
    rw [htx]
    rfl
  rw [← hpayment] at hadditions haccepted
  exact ⟨hadditions, haccepted walletPayment_state.1.assumptions⟩

end LedgerSim
