import LedgerSim.ChainView

/-!
# What acceptance of a block means

`acceptBody` returns exactly when the block passes every check, and the checks
are restated here as properties of the block, of the storage and of the records
that the unspent database held before.  The later modules argue from
`AcceptedBody` and never unfold the validation code again.
-/

namespace LedgerSim

variable (E : Environment)

/-! ## The overlays -/

private theorem foldl_addPreimage_hashPreimage (additions : List Coin)
    (db : Database) (hnodup : (additions.map (Coin.name E)).Nodup)
    (hash : Bytes32) :
    (additions.foldl (fun db coin => db.addPreimage E (coin.bytes E))
        db).hashPreimage hash =
      match additions.find? fun coin => coin.name E = hash with
      | some coin => some (coin.bytes E)
      | none => db.hashPreimage hash := by
  induction additions generalizing db with
  | nil => rfl
  | cons coin rest ih =>
      obtain ⟨hfresh, hrest⟩ := List.nodup_cons.mp hnodup
      rw [List.foldl_cons, ih _ hrest, Database.addPreimage_hashPreimage]
      by_cases hname : coin.name E = hash
      · have hnone : rest.find? (fun c => c.name E = hash) = none := by
          rw [List.find?_eq_none]
          intro other hother
          simp only [decide_eq_true_eq]
          intro heq
          exact hfresh (List.mem_map.mpr ⟨other, hother, heq.trans hname.symm⟩)
        rw [hnone, List.find?_cons_of_pos (by simpa using hname)]
        simp [← hname, Coin.name]
      · have hne : ¬ hash = E.stdHash (coin.bytes E) := fun h => hname h.symm
        rw [List.find?_cons_of_neg (by simpa using hname), if_neg hne]

theorem ramStorageOf_of_mem {additions : List Coin}
    (hnodup : (additions.map (Coin.name E)).Nodup) {coin : Coin}
    (hmem : coin ∈ additions) :
    (ramStorageOf E additions).hashPreimage (coin.name E) =
      some (coin.bytes E) := by
  unfold ramStorageOf
  rw [foldl_addPreimage_hashPreimage E additions _ hnodup]
  cases hfind : additions.find? (fun c => c.name E = coin.name E) with
  | none =>
      have := List.find?_eq_none.mp hfind coin hmem
      simp at this
  | some found =>
      have hname : found.name E = coin.name E := by
        simpa using List.find?_some hfind
      have heq : found = coin :=
        List.inj_on_of_nodup_map hnodup (List.mem_of_find?_eq_some hfind)
          hmem hname
      simp [heq]

theorem ramStorageOf_of_notMem {additions : List Coin}
    (hnodup : (additions.map (Coin.name E)).Nodup) {name : Bytes32}
    (hmem : name ∉ additions.map (Coin.name E)) :
    (ramStorageOf E additions).hashPreimage name = none := by
  unfold ramStorageOf
  rw [foldl_addPreimage_hashPreimage E additions _ hnodup]
  have hnone : additions.find? (fun c => c.name E = name) = none := by
    rw [List.find?_eq_none]
    intro coin hcoin
    simp only [decide_eq_true_eq]
    intro heq
    exact hmem (List.mem_map.mpr ⟨coin, hcoin, heq⟩)
  rw [hnone]
  rfl

theorem ramUnspentDB_get (additions : List Coin) (index : ℕ)
    (name : Bytes32) :
    (ramUnspentDB E additions index).get name =
      if name ∈ additions.map (Coin.name E) then some ⟨index, 0⟩ else none := by
  unfold ramUnspentDB
  by_cases hmem : name ∈ additions.map (Coin.name E)
  · rw [if_pos hmem]
    exact Dict.get_foldl_set_of_mem (fun _ => Unspent.mk index 0) _ hmem
  · rw [if_neg hmem]
    exact Dict.get_foldl_set_of_notMem (fun _ => Unspent.mk index 0) _ hmem

theorem coinToUnspent_get_of_mem (unspentFor : Bytes32 → Option Unspent)
    {cpcList : List Cpc} {cpc : Cpc} (hmem : cpc ∈ cpcList) :
    (coinToUnspent E unspentFor cpcList).get (cpc.coin.name E) =
      some (unspentFor (cpc.coin.name E)) := by
  unfold coinToUnspent
  exact Dict.get_foldl_set_of_mem unspentFor _
    (List.mem_map_of_mem (f := fun cpc : Cpc => cpc.coin.name E) hmem)

/-- The signature pairs of all coins, in order. -/
def keyPairs (cpcList : List Cpc) : Except Exn (List AggsigPair) := do
  let pairs ← cpcList.mapM fun cpc =>
    hashKeyPairsForConditionsDict cpc.conditionsDict
  .ok pairs.flatten

variable {E} in
theorem checkSolutions_split_ok_iff {context : ConditionContext}
    {cpcList : List Cpc} {pairs : List AggsigPair} :
    checkSolutions E context cpcList = .ok pairs ↔
      (∀ cpc ∈ cpcList,
        checkConditionsDict E cpc.coin cpc.conditionsDict context = .ok ()) ∧
      keyPairs cpcList = .ok pairs := by
  unfold checkSolutions keyPairs
  rw [Except.bind_eq_ok_iff, Except.bind_eq_ok_iff]
  simp only [Except.mapM_guard_eq_ok_iff, and_assoc, exists_and_left]

theorem overlay_of_top {α β : Type} {top bottom : α → Option β} {key : α}
    {value : β} (h : top key = some value) :
    overlay top bottom key = some value := by
  simp [overlay, h]

theorem overlay_of_top_none {α β : Type} {top bottom : α → Option β}
    {key : α} (h : top key = none) :
    overlay top bottom key = bottom key := by
  simp [overlay, h]

/-! ## The checks, one by one -/

theorem checkAmounts_ok_iff (additions : List Coin) :
    checkAmounts additions = .ok () ↔
      ∀ coin ∈ additions, coin.amount < maxCoinAmount := by
  unfold checkAmounts
  rw [Except.forM_eq_ok_iff]
  constructor
  · intro h coin hmem
    exact not_le.mp (Except.raiseIf_eq_ok_iff.mp (h coin hmem))
  · intro h coin hmem
    exact Except.raiseIf_eq_ok_iff.mpr (not_le.mpr (h coin hmem))

theorem checkCounter_ok_iff (err : Err) (names : List Bytes32) :
    checkCounter err names = .ok () ↔ names.Nodup := by
  unfold checkCounter
  cases hfind : names.find? (fun k => 1 < names.count k) with
  | none =>
      refine iff_of_true rfl ?_
      rw [List.nodup_iff_count_le_one]
      intro k
      by_cases hmem : k ∈ names
      · simpa using List.find?_eq_none.mp hfind k hmem
      · simp [List.count_eq_zero_of_not_mem hmem]
  | some k =>
      refine iff_of_false (by simp) ?_
      rw [List.nodup_iff_count_le_one]
      intro hle
      have hlt : 1 < names.count k := by simpa using List.find?_some hfind
      exact absurd (hle k) (not_le.mpr hlt)

theorem checkPuzzleHashes_ok_iff (cpcList : List Cpc) :
    checkPuzzleHashes cpcList = .ok () ↔
      ∀ cpc ∈ cpcList, cpc.puzzleHash = cpc.coin.puzzleHash := by
  unfold checkPuzzleHashes
  rw [Except.forM_eq_ok_iff]
  constructor
  · intro h cpc hmem
    exact not_not.mp (Except.raiseIf_eq_ok_iff.mp (h cpc hmem))
  · intro h cpc hmem
    exact Except.raiseIf_eq_ok_iff.mpr (not_not.mpr (h cpc hmem))

/-- A record that accepts a removal: confirmed in `1..tipIndex` and not spent
in `1..tipIndex`. -/
def Unspent.Spendable (tipIndex : ℕ) (unspent : Unspent) : Prop :=
  (0 < unspent.confirmedBlockIndex ∧
      unspent.confirmedBlockIndex ≤ tipIndex) ∧
    ¬ (0 < unspent.spentBlockIndex ∧ unspent.spentBlockIndex ≤ tipIndex)

/-- The removal check passes for a coin that the block creates, and otherwise
asks the chain view's own database: a record of the block's overlay has index
`tipIndex + 1`. -/
theorem checkRemoval_ok_iff (tipIndex : ℕ) (additions : List Coin)
    (unspentFor : Bytes32 → Option Unspent) {cpcList : List Cpc} {cpc : Cpc}
    (hmem : cpc ∈ cpcList) :
    checkRemoval E tipIndex additions
        (coinToUnspent E
          (overlay unspentFor (ramUnspentDB E additions (tipIndex + 1)).get)
          cpcList) cpc.coin = .ok () ↔
      cpc.coin ∈ additions ∨
        ∃ unspent, unspentFor (cpc.coin.name E) = some unspent ∧
          unspent.Spendable tipIndex := by
  unfold checkRemoval
  by_cases hadd : cpc.coin ∈ additions
  · simp [hadd]
  rw [if_neg hadd, coinToUnspent_get_of_mem E _ hmem]
  simp only [hadd, false_or]
  cases hrecord : unspentFor (cpc.coin.name E) with
  | none =>
      rw [overlay_of_top_none hrecord, ramUnspentDB_get]
      split_ifs <;> simp
  | some unspent =>
      rw [overlay_of_top hrecord]
      simp only [Option.some.injEq, exists_eq_left', Unspent.Spendable]
      split
      next h =>
        simp only [reduceCtorEq, false_iff]
        omega
      next h =>
        split
        next h' => simp [h']
        next h' =>
          simp only [true_iff]
          exact ⟨by omega, h'⟩

/-! ## Accepted bodies -/

theorem mem_additions_iff {body : Body} {outputs : List Coin} {coin : Coin} :
    coin ∈ body.coinbaseCoin :: body.feesCoin :: outputs ↔
      coin ∈ [body.coinbaseCoin, body.feesCoin] ∨ coin ∈ outputs := by
  simp only [List.mem_cons, List.not_mem_nil, or_false, or_assoc]

/-- The intermediate lists of a block that passes every check. -/
structure AcceptedBody (tipIndex : ℕ) (body : Body)
    (hashPreimage : Bytes32 → Option Bytes)
    (unspentFor : Bytes32 → Option Unspent)
    (coinbaseReward timestamp : ℤ) where
  npcList : List Npc
  outputs : List Coin
  cpcList : List Cpc
  hashKeyPairs : List AggsigPair
  npcList_eq : namePuzzleConditionsList E body.solutionProgram = .ok npcList
  outputs_eq : createdOutputs E npcList = .ok outputs
  amounts : ∀ coin ∈ body.coinbaseCoin :: body.feesCoin :: outputs,
    coin.amount < maxCoinAmount
  additions_nodup :
    ((body.coinbaseCoin :: body.feesCoin :: outputs).map (Coin.name E)).Nodup
  removals_nodup : (npcList.map Npc.coinName).Nodup
  resolved : npcList.mapM (resolveCoin E
    (overlay
      (ramStorageOf E
        (body.coinbaseCoin :: body.feesCoin :: outputs)).hashPreimage
      hashPreimage)) = .ok cpcList
  puzzleHash : ∀ cpc ∈ cpcList, cpc.puzzleHash = cpc.coin.puzzleHash
  spendable : ∀ cpc ∈ cpcList,
    cpc.coin ∈ body.coinbaseCoin :: body.feesCoin :: outputs ∨
      ∃ unspent, unspentFor (cpc.coin.name E) = some unspent ∧
        unspent.Spendable tipIndex
  fees : blockFees (body.coinbaseCoin :: body.feesCoin :: outputs) cpcList =
    coinbaseReward
  solutions : checkSolutions E
    ⟨tipIndex + 1, npcList.map Npc.coinName,
      coinToUnspent E
        (overlay unspentFor
          (ramUnspentDB E (body.coinbaseCoin :: body.feesCoin :: outputs)
            (tipIndex + 1)).get) cpcList,
      timestamp⟩ cpcList = .ok hashKeyPairs
  signature : body.aggregatedSignature.validate E hashKeyPairs = .ok true

namespace AcceptedBody

variable {E} {tipIndex : ℕ} {body : Body}
  {hashPreimage : Bytes32 → Option Bytes}
  {unspentFor : Bytes32 → Option Unspent} {coinbaseReward timestamp : ℤ}

def additions (_a : AcceptedBody E tipIndex body hashPreimage unspentFor
    coinbaseReward timestamp) : List Coin :=
  body.coinbaseCoin :: body.feesCoin :: _a.outputs

def removals (a : AcceptedBody E tipIndex body hashPreimage unspentFor
    coinbaseReward timestamp) : List Bytes32 :=
  a.npcList.map Npc.coinName

theorem additionsForBody_eq (a : AcceptedBody E tipIndex body hashPreimage
    unspentFor coinbaseReward timestamp) :
    additionsForBody E body = .ok a.additions := by
  apply Except.bind_eq_ok a.npcList_eq
  exact Except.bind_eq_ok a.outputs_eq rfl

theorem exists_cpc (a : AcceptedBody E tipIndex body hashPreimage unspentFor
    coinbaseReward timestamp) {name : Bytes32} (hname : name ∈ a.removals) :
    ∃ cpc ∈ a.cpcList,
      coinPointerObj E
        (overlay (ramStorageOf E a.additions).hashPreimage hashPreimage)
        name = .ok cpc.coin := by
  obtain ⟨npc, hnpc, rfl⟩ := List.mem_map.mp hname
  obtain ⟨cpc, hcpc, hresolved⟩ := Except.exists_of_mapM_eq_ok a.resolved hnpc
  obtain ⟨coin, hcoin, h⟩ := Except.bind_eq_ok_iff.mp hresolved
  obtain rfl := Except.ok.inj h
  exact ⟨_, hcpc, hcoin⟩

end AcceptedBody

/-- Acceptance is the conjunction of the checks. -/
theorem acceptBody_eq_ok_iff {tipIndex : ℕ} {body : Body}
    {hashPreimage : Bytes32 → Option Bytes}
    {unspentFor : Bytes32 → Option Unspent} {coinbaseReward timestamp : ℤ}
    {additions : List Coin} {removals : List Bytes32} :
    acceptBody E tipIndex body hashPreimage unspentFor coinbaseReward
        timestamp = .ok (additions, removals) ↔
      ∃ a : AcceptedBody E tipIndex body hashPreimage unspentFor
          coinbaseReward timestamp,
        a.additions = additions ∧ a.removals = removals := by
  unfold acceptBody
  constructor
  · intro h
    obtain ⟨npcList, hnpc, h⟩ := Except.bind_eq_ok_iff.mp h
    obtain ⟨outputs, houtputs, h⟩ := Except.bind_eq_ok_iff.mp h
    obtain ⟨_, hamounts, h⟩ := Except.bind_eq_ok_iff.mp h
    obtain ⟨_, hadditions, h⟩ := Except.bind_eq_ok_iff.mp h
    obtain ⟨_, hremovals, h⟩ := Except.bind_eq_ok_iff.mp h
    obtain ⟨cpcList, hresolved, h⟩ := Except.bind_eq_ok_iff.mp h
    obtain ⟨_, hpuzzle, h⟩ := Except.bind_eq_ok_iff.mp h
    obtain ⟨_, hremovable, h⟩ := Except.bind_eq_ok_iff.mp h
    obtain ⟨_, hfees, h⟩ := Except.bind_eq_ok_iff.mp h
    obtain ⟨hashKeyPairs, hsolutions, h⟩ := Except.bind_eq_ok_iff.mp h
    obtain ⟨verdict, hverdict, h⟩ := Except.bind_eq_ok_iff.mp h
    obtain ⟨_, hvalid, h⟩ := Except.bind_eq_ok_iff.mp h
    simp only [Except.ok.injEq, Prod.mk.injEq] at h
    have hverdict' : verdict = true := by
      simpa using Except.raiseIf_eq_ok_iff.mp hvalid
    rw [hverdict'] at hverdict
    refine ⟨⟨npcList, outputs, cpcList, hashKeyPairs, hnpc, houtputs,
      (checkAmounts_ok_iff _).mp hamounts,
      (checkCounter_ok_iff _ _).mp hadditions,
      (checkCounter_ok_iff _ _).mp hremovals, hresolved,
      (checkPuzzleHashes_ok_iff _).mp hpuzzle, ?_,
      not_not.mp (Except.raiseIf_eq_ok_iff.mp hfees), hsolutions, hverdict⟩,
      h.1, h.2⟩
    intro cpc hmem
    exact (checkRemoval_ok_iff E _ _ _ hmem).mp
      (Except.forM_eq_ok_iff.mp hremovable cpc hmem)
  · rintro ⟨a, rfl, rfl⟩
    apply Except.bind_eq_ok a.npcList_eq
    apply Except.bind_eq_ok a.outputs_eq
    apply Except.bind_eq_ok ((checkAmounts_ok_iff _).mpr a.amounts)
    apply Except.bind_eq_ok ((checkCounter_ok_iff _ _).mpr a.additions_nodup)
    apply Except.bind_eq_ok ((checkCounter_ok_iff _ _).mpr a.removals_nodup)
    apply Except.bind_eq_ok a.resolved
    apply Except.bind_eq_ok ((checkPuzzleHashes_ok_iff _).mpr a.puzzleHash)
    refine Except.bind_eq_ok_iff.mpr ⟨⟨⟩, ?_, ?_⟩
    · refine Except.forM_eq_ok_iff.mpr fun cpc hmem => ?_
      exact (checkRemoval_ok_iff E _ _ _ hmem).mpr (a.spendable cpc hmem)
    apply Except.bind_eq_ok (Except.raiseIf_eq_ok_iff.mpr (not_not.mpr a.fees))
    apply Except.bind_eq_ok a.solutions
    apply Except.bind_eq_ok a.signature
    apply Except.bind_eq_ok (Except.raiseIf_eq_ok_iff.mpr (by simp))
    rfl

theorem classifyUnexpected_eq_ok_iff {α : Type} {x : Except Exn α} {a : α} :
    classifyUnexpected x = .ok a ↔ x = .ok a := by
  unfold classifyUnexpected
  split <;> simp

theorem acceptNewBlock_eq_ok_iff {chainView : ChainView} {header : Header}
    {hashPreimage : Bytes32 → Option Bytes}
    {unspentFor : Bytes32 → Option Unspent} {coinbaseReward timestamp : ℤ}
    {additions : List Coin} {removals : List Bytes32} :
    acceptNewBlock E chainView header hashPreimage unspentFor coinbaseReward
        timestamp = .ok (additions, removals) ↔
      header.previousHash.hash = chainView.tipHash.hash ∧
        ∃ body,
          header.bodyHash.obj E (Body.parse E) hashPreimage =
            .ok (some body) ∧
          ∃ a : AcceptedBody E chainView.tipIndex body hashPreimage unspentFor
              coinbaseReward timestamp,
            a.additions = additions ∧ a.removals = removals := by
  unfold acceptNewBlock
  rw [classifyUnexpected_eq_ok_iff]
  constructor
  · intro h
    obtain ⟨_, hextends, h⟩ := Except.bind_eq_ok_iff.mp h
    obtain ⟨resolved, hbody, h⟩ := Except.bind_eq_ok_iff.mp h
    refine ⟨not_not.mp (Except.raiseIf_eq_ok_iff.mp hextends), ?_⟩
    cases resolved with
    | none => simp at h
    | some body =>
        exact ⟨body, hbody, (acceptBody_eq_ok_iff E).mp h⟩
  · rintro ⟨hextends, body, hbody, haccepted⟩
    apply Except.bind_eq_ok (Except.raiseIf_eq_ok_iff.mpr (not_not.mpr hextends))
    apply Except.bind_eq_ok hbody
    exact (acceptBody_eq_ok_iff E).mpr haccepted

end LedgerSim
