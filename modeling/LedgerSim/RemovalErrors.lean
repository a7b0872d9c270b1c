import LedgerSim.SpendOrder
import LedgerSim.UnknownErrors

/-!
# The errors of removed coins

A coin that may not be removed is unknown or spent, and validation has an error
for each.  The record of a coin is only read once all names are resolved, and a
name without a blob is answered with neither of the two errors.
-/

namespace LedgerSim

open Except

variable (E : Environment)

/-- The block adds the coin, or its record lets it be spent at the tip. -/
def Removable (additions : List Coin)
    (unspentFor : Bytes32 → Option Unspent) (tipIndex : ℕ) (name : Bytes32) :
    Prop :=
  name ∈ additions.map (Coin.name E) ∨
    ∃ unspent, unspentFor name = some unspent ∧ unspent.Spendable tipIndex

/-- No preimage, no record, or a record that is not confirmed at the tip. -/
def UnknownCoin (hashPreimage : Bytes32 → Option Bytes)
    (unspentFor : Bytes32 → Option Unspent) (tipIndex : ℕ) (name : Bytes32) :
    Prop :=
  hashPreimage name = none ∨ unspentFor name = none ∨
    ∃ unspent, unspentFor name = some unspent ∧
      ¬ (0 < unspent.confirmedBlockIndex ∧
        unspent.confirmedBlockIndex ≤ tipIndex)

def SpentCoin (unspentFor : Bytes32 → Option Unspent) (tipIndex : ℕ)
    (name : Bytes32) : Prop :=
  ∃ unspent, unspentFor name = some unspent ∧
    0 < unspent.spentBlockIndex ∧ unspent.spentBlockIndex ≤ tipIndex

/-- A block on the tip whose lists pass the checks that come before the coins
are looked up, and which reveals the right puzzle of every coin that can be. -/
structure RemovingBlock (chainView : ChainView) (header : Header) (body : Body)
    (hashPreimage : Bytes32 → Option Bytes) (npcList : List Npc)
    (outputs : List Coin) : Prop extends CountedBody E body npcList outputs where
  extendsTip : header.previousHash.hash = chainView.tipHash.hash
  body_eq : header.bodyHash.obj E (Body.parse E) hashPreimage =
    .ok (some body)
  keepsCoins : KeepsCoins E hashPreimage (npcList.map Npc.coinName)
  reveals : ∀ npc ∈ npcList, ∀ coin,
    coinPointerObj E
        (overlayStorage E (bodyAdditions body outputs) hashPreimage)
        npc.coinName = .ok coin →
      npc.puzzleHash = coin.puzzleHash

/-- The outcome of a validation tells why a coin may not be removed. -/
structure ClassifiesRemovals (additions : List Coin) (removals : List Bytes32)
    (hashPreimage : Bytes32 → Option Bytes)
    (unspentFor : Bytes32 → Option Unspent) (tipIndex : ℕ)
    (outcome : Except Exn (List Coin × List Bytes32)) : Prop where
  refused : (∃ name ∈ removals,
      ¬ Removable E additions unspentFor tipIndex name) →
    ∃ e, outcome = .error e ∧
      (e.code = .unknownUnspent ∨ e.code = .doubleSpend)
  unknown : ∀ e, outcome = .error e → e.code = .unknownUnspent →
    ∃ name ∈ removals, ¬ Removable E additions unspentFor tipIndex name ∧
      UnknownCoin hashPreimage unspentFor tipIndex name
  spent : ∀ e, outcome = .error e → e.code = .doubleSpend →
    ∃ name ∈ removals, ¬ Removable E additions unspentFor tipIndex name ∧
      SpentCoin unspentFor tipIndex name
  passed : (∀ name ∈ removals,
      Removable E additions unspentFor tipIndex name) →
    ∀ e, outcome = .error e →
      e.code ≠ .unknownUnspent ∧ e.code ≠ .doubleSpend

section Removals

variable {E} {chainView : ChainView} {header : Header} {body : Body}
  {hashPreimage : Bytes32 → Option Bytes}
  {unspentFor : Bytes32 → Option Unspent} {coinbaseReward timestamp : ℤ}
  {npcList : List Npc} {outputs : List Coin} {cpcList : List Cpc}

/-! ## Looking up the coins -/

theorem resolveCoin_eq_ok_iff {npc : Npc} {cpc : Cpc} :
    resolveCoin E hashPreimage npc = .ok cpc ↔
      coinPointerObj E hashPreimage npc.coinName = .ok cpc.coin ∧
        cpc.puzzleHash = npc.puzzleHash ∧
        cpc.conditionsDict = npc.conditionsDict := by
  unfold resolveCoin
  rw [bind_eq_ok_iff]
  constructor
  · rintro ⟨coin, hcoin, h⟩
    rw [← Except.ok.inj h]
    exact ⟨hcoin, rfl, rfl⟩
  · rintro ⟨hcoin, hpuzzle, hdict⟩
    refine ⟨cpc.coin, hcoin, ?_⟩
    rw [← hpuzzle, ← hdict]

namespace RemovingBlock

variable (h : RemovingBlock E chainView header body hashPreimage npcList
  outputs)

include h

/-- A name resolves when the block adds its coin or the storage has a blob. -/
theorem exists_obj_iff (hE : E.Lawful) {name : Bytes32}
    (hname : name ∈ npcList.map Npc.coinName) :
    (∃ coin, coinPointerObj E
        (overlayStorage E (bodyAdditions body outputs) hashPreimage) name =
          .ok coin) ↔
      name ∈ (bodyAdditions body outputs).map (Coin.name E) ∨
        hashPreimage name ≠ none := by
  unfold coinPointerObj overlayStorage
  by_cases hadded : name ∈ (bodyAdditions body outputs).map (Coin.name E)
  · have hmem := List.mem_map.mp hadded
    obtain ⟨coin, hcoin, rfl⟩ := hmem
    rw [overlay_of_top (ramStorageOf_of_mem E h.additions_nodup hcoin)]
    exact iff_of_true ⟨coin, Coin.fromBytes_bytes E hE coin⟩ (.inl hadded)
  · rw [overlay_of_top_none
      (ramStorageOf_of_notMem E h.additions_nodup hadded)]
    cases hblob : hashPreimage name with
    | none => simp [hadded]
    | some blob =>
        obtain ⟨coin, rfl, -⟩ := h.keepsCoins name hname blob hblob
        exact iff_of_true ⟨coin, Coin.fromBytes_bytes E hE coin⟩
          (.inr (Option.some_ne_none _))

/-- The coins resolve when every name does. -/
theorem exists_resolved_iff (hE : E.Lawful) :
    (∃ cpcList, ResolvedBody E body hashPreimage npcList outputs cpcList) ↔
      ∀ name ∈ npcList.map Npc.coinName,
        name ∈ (bodyAdditions body outputs).map (Coin.name E) ∨
          hashPreimage name ≠ none := by
  constructor
  · rintro ⟨cpcList, hresolved⟩ name hname
    apply (h.exists_obj_iff hE hname).mp
    obtain ⟨npc, hnpc, rfl⟩ := List.mem_map.mp hname
    obtain ⟨cpc, -, hcpc⟩ :=
      exists_of_mapM_eq_ok hresolved.resolved hnpc
    exact ⟨cpc.coin, (resolveCoin_eq_ok_iff.mp hcpc).1⟩
  · intro hnames
    have hcpcs : ∃ cpcList, npcList.mapM (resolveCoin E (overlayStorage E
        (bodyAdditions body outputs) hashPreimage)) = .ok cpcList := by
      apply exists_mapM_eq_ok
      intro npc hnpc
      have hname := List.mem_map_of_mem (f := Npc.coinName) hnpc
      obtain ⟨coin, hcoin⟩ := (h.exists_obj_iff hE hname).mpr (hnames _ hname)
      exact ⟨⟨coin, npc.puzzleHash, npc.conditionsDict⟩,
        resolveCoin_eq_ok_iff.mpr ⟨hcoin, rfl, rfl⟩⟩
    obtain ⟨cpcList, hcpcs⟩ := hcpcs
    exact ⟨cpcList, h.toCountedBody, hcpcs⟩

theorem puzzleHashes
    (hresolved : ResolvedBody E body hashPreimage npcList outputs cpcList) :
    checkPuzzleHashes cpcList = .ok () := by
  apply (checkPuzzleHashes_ok_iff _).mpr
  intro cpc hcpc
  obtain ⟨npc, hnpc, hread⟩ :=
    (mem_iff_of_mapM_eq_ok hresolved.resolved).mp hcpc
  have hfields := resolveCoin_eq_ok_iff.mp hread
  rw [hfields.2.1]
  exact h.reveals npc hnpc cpc.coin hfields.1

/-- The resolved coins are the removed ones, in order. -/
theorem coin_names (hE : E.Lawful)
    (hresolved : ResolvedBody E body hashPreimage npcList outputs cpcList) :
    cpcList.map (fun cpc => cpc.coin.name E) = npcList.map Npc.coinName := by
  have hread := (List.forall₂_and_left npcList cpcList).mpr
    ⟨fun _ hnpc => hnpc, mapM_eq_ok_iff.mp hresolved.resolved⟩
  have hnames : List.Forall₂
      (fun (npc : Npc) (cpc : Cpc) => npc.coinName = cpc.coin.name E)
      npcList cpcList := by
    apply hread.imp
    rintro npc cpc ⟨hnpc, hcpc⟩
    have hname := List.mem_map_of_mem (f := Npc.coinName) hnpc
    exact (h.keepsCoins.name_of_obj hE h.additions_nodup hname
      (resolveCoin_eq_ok_iff.mp hcpc).1).symm
  exact hnames.map_eq_map.symm

theorem mem_additions_iff_name (hE : E.Lawful)
    (hresolved : ResolvedBody E body hashPreimage npcList outputs cpcList)
    {cpc : Cpc} (hcpc : cpc ∈ cpcList) :
    cpc.coin ∈ bodyAdditions body outputs ↔
      cpc.coin.name E ∈ (bodyAdditions body outputs).map (Coin.name E) := by
  constructor
  · intro hmem
    exact List.mem_map_of_mem hmem
  · intro hname
    obtain ⟨npc, hnpc, hread⟩ :=
      (mem_iff_of_mapM_eq_ok hresolved.resolved).mp hcpc
    have hcoin := (resolveCoin_eq_ok_iff.mp hread).1
    have hnpcName := List.mem_map_of_mem (f := Npc.coinName) hnpc
    have hsame := h.keepsCoins.name_of_obj hE h.additions_nodup hnpcName hcoin
    rcases coinPointerObj_overlay E hE h.additions_nodup hcoin with
      ⟨hmem, -⟩ | ⟨hadded, -⟩
    · exact hmem
    · rw [← hsame] at hadded
      exact absurd hname hadded

end RemovingBlock

/-! ## The removal check -/

/-- What the check of one resolved coin raises. -/
theorem checkRemoval_error {tipIndex : ℕ} {additions : List Coin}
    {cpc : Cpc} (hcpc : cpc ∈ cpcList) {e : Exn}
    (h : checkRemoval E tipIndex additions
      (bodyRecords E tipIndex additions unspentFor cpcList) cpc.coin =
        .error e) :
    (e.code = .unknownUnspent ∧
        UnknownCoin hashPreimage unspentFor tipIndex (cpc.coin.name E)) ∨
      (e.code = .doubleSpend ∧
        SpentCoin unspentFor tipIndex (cpc.coin.name E)) := by
  unfold checkRemoval bodyRecords at h
  split_ifs at h with hadded
  rw [coinToUnspent_get_of_mem E _ hcpc] at h
  cases hrecord : unspentFor (cpc.coin.name E) with
  | none =>
      rw [overlay_of_top_none hrecord, ramUnspentDB_get] at h
      refine .inl ⟨?_, .inr (.inl hrecord)⟩
      -- a record of the block's overlay is confirmed after the tip
      split_ifs at h
      · simp only [Nat.lt_succ_self, or_true, if_true] at h
        rw [← Except.error.inj h]
        rfl
      · rw [← Except.error.inj h]
        rfl
  | some unspent =>
      rw [overlay_of_top hrecord] at h
      dsimp only at h
      split_ifs at h with hconfirmed hspent
      · refine .inl ⟨?_, .inr (.inr ⟨unspent, hrecord, by omega⟩)⟩
        rw [← Except.error.inj h]
        rfl
      · refine .inr ⟨?_, unspent, hrecord, hspent⟩
        rw [← Except.error.inj h]
        rfl

theorem raises_acceptSpendable (body : Body) (context : ConditionContext)
    (npcList : List Npc) (outputs : List Coin) (cpcList : List Cpc) :
    RaisesCodes (.badAggregateSignature :: conditionCodes)
      (acceptSpendable E body context npcList outputs cpcList) := by
  unfold acceptSpendable
  apply Raises.bind
  · exact (raises_checkSolutions E _ _).weaken (List.subset_cons_self _ _)
  intro pairs
  apply Raises.bind
  · exact (raises_validate E _ _).weaken (by simp [conditionCodes])
  intro valid
  apply Raises.bind
  · exact raises_raiseIf (by simp)
  intro _
  exact raises_ok _

namespace RemovingBlock

variable (h : RemovingBlock E chainView header body hashPreimage npcList
  outputs)

include h

theorem acceptNewBlock_eq :
    acceptNewBlock E chainView header hashPreimage unspentFor coinbaseReward
        timestamp =
      classifyUnexpected (npcList.mapM (resolveCoin E
        (overlayStorage E (bodyAdditions body outputs) hashPreimage)) >>=
          acceptResolved E chainView.tipIndex body unspentFor coinbaseReward
            timestamp npcList outputs) := by
  have hextends : raiseIf (header.previousHash.hash ≠ chainView.tipHash.hash)
      (Exn.consensusError .doesNotExtend (.header header)) = .ok () :=
    raiseIf_eq_ok_iff.mpr (not_not.mpr h.extendsTip)
  unfold acceptNewBlock
  rw [hextends, ok_bind, h.body_eq, ok_bind, ← h.toCountedBody.acceptBody_eq]

/-- A name that does not resolve is answered with `UNKNOWN`. -/
theorem error_of_unresolved
    (hunresolved : ¬ ∃ cpcList,
      ResolvedBody E body hashPreimage npcList outputs cpcList) :
    ∃ e, acceptNewBlock E chainView header hashPreimage unspentFor
        coinbaseReward timestamp = .error e ∧ e.code = .unknown := by
  cases hcoins : npcList.mapM (resolveCoin E
      (overlayStorage E (bodyAdditions body outputs) hashPreimage)) with
  | ok cpcList =>
      exact absurd ⟨cpcList, h.toCountedBody, hcoins⟩ hunresolved
  | error e =>
      have hcode := RaisesCodes.mem
        (Raises.mapM fun _ _ => raises_resolveCoin E _ _) hcoins rfl
      refine ⟨e.classified, ?_, ?_⟩
      · rw [h.acceptNewBlock_eq, hcoins]
        exact classifyUnexpected_eq_error_iff.mpr ⟨e, rfl, rfl⟩
      · rw [Exn.code_classified]
        exact List.mem_singleton.mp hcode

/-- Once the coins are resolved, the two codes come from the removal check. -/
theorem checkRemovals_error
    (hresolved : ResolvedBody E body hashPreimage npcList outputs cpcList)
    {e : Exn} (herror : acceptNewBlock E chainView header hashPreimage
      unspentFor coinbaseReward timestamp = .error e)
    (hcode : e.code = .unknownUnspent ∨ e.code = .doubleSpend) :
    ∃ e', (cpcList.forM fun cpc => checkRemoval E chainView.tipIndex
      (bodyAdditions body outputs)
      (bodyRecords E chainView.tipIndex (bodyAdditions body outputs)
        unspentFor cpcList) cpc.coin) = .error e' ∧ e'.code = e.code := by
  rw [h.acceptNewBlock_eq, hresolved.resolved, ok_bind, acceptResolved,
    h.puzzleHashes hresolved, ok_bind] at herror
  obtain ⟨e', hfailed, rfl⟩ := classifyUnexpected_eq_error_iff.mp herror
  rw [Exn.code_classified] at hcode ⊢
  rcases bind_eq_error_iff.mp hfailed with hremoval | ⟨_, -, hfailed⟩
  · exact ⟨e', hremoval, rfl⟩
  exfalso
  rcases bind_eq_error_iff.mp hfailed with hfees | ⟨_, -, hfailed⟩
  · have hraised := (raiseIf_eq_error_iff.mp hfees).2
    rw [← hraised] at hcode
    simp at hcode
  · have hmem := RaisesCodes.mem
      (raises_acceptSpendable body _ npcList outputs cpcList) hfailed rfl
    rcases hcode with hcode | hcode
    · rw [hcode] at hmem
      simp [conditionCodes] at hmem
    · rw [hcode] at hmem
      simp [conditionCodes] at hmem

/-- The removal check passes exactly when every removed coin may be
removed. -/
theorem checkRemovals_ok_iff_removable (hE : E.Lawful)
    (hresolved : ResolvedBody E body hashPreimage npcList outputs cpcList) :
    (cpcList.forM fun cpc => checkRemoval E chainView.tipIndex
        (bodyAdditions body outputs)
        (bodyRecords E chainView.tipIndex (bodyAdditions body outputs)
          unspentFor cpcList) cpc.coin) = .ok () ↔
      ∀ name ∈ npcList.map Npc.coinName,
        Removable E (bodyAdditions body outputs) unspentFor chainView.tipIndex
          name := by
  rw [checkRemovals_ok_iff, ← h.coin_names hE hresolved,
    List.forall_mem_map]
  apply forall₂_congr
  intro cpc hcpc
  unfold Removable
  rw [h.mem_additions_iff_name hE hresolved hcpc]

/-- The check that fails names a cause, and the coin may not be removed. -/
theorem cause_of_error (hE : E.Lawful)
    (hresolved : ResolvedBody E body hashPreimage npcList outputs cpcList)
    {e : Exn} (herror : (cpcList.forM fun cpc =>
      checkRemoval E chainView.tipIndex (bodyAdditions body outputs)
        (bodyRecords E chainView.tipIndex (bodyAdditions body outputs)
          unspentFor cpcList) cpc.coin) = .error e) :
    ∃ name ∈ npcList.map Npc.coinName,
      ¬ Removable E (bodyAdditions body outputs) unspentFor chainView.tipIndex
          name ∧
        ((e.code = .unknownUnspent ∧
            UnknownCoin hashPreimage unspentFor chainView.tipIndex name) ∨
          (e.code = .doubleSpend ∧
            SpentCoin unspentFor chainView.tipIndex name)) := by
  obtain ⟨before, cpc, after, hsplit, -, hfailed⟩ :=
    forM_eq_error_iff.mp herror
  have hcpc : cpc ∈ cpcList := by simp [hsplit]
  have hname : cpc.coin.name E ∈ npcList.map Npc.coinName := by
    rw [← h.coin_names hE hresolved]
    exact List.mem_map_of_mem (f := fun cpc : Cpc => cpc.coin.name E) hcpc
  refine ⟨cpc.coin.name E, hname, ?_, checkRemoval_error hcpc hfailed⟩
  intro hremovable
  unfold Removable at hremovable
  rw [← h.mem_additions_iff_name hE hresolved hcpc] at hremovable
  have hpassed := (checkRemoval_ok_iff E chainView.tipIndex
    (bodyAdditions body outputs) unspentFor hcpc).mpr hremovable
  unfold bodyRecords at hfailed
  rw [hpassed] at hfailed
  cases hfailed

theorem error_of_not_removable (hE : E.Lawful)
    (hresolved : ResolvedBody E body hashPreimage npcList outputs cpcList)
    (hbad : ∃ name ∈ npcList.map Npc.coinName,
      ¬ Removable E (bodyAdditions body outputs) unspentFor chainView.tipIndex
        name) :
    ∃ e, acceptNewBlock E chainView header hashPreimage unspentFor
        coinbaseReward timestamp = .error e ∧
      (e.code = .unknownUnspent ∨ e.code = .doubleSpend) := by
  cases hcheck : (cpcList.forM fun cpc => checkRemoval E chainView.tipIndex
      (bodyAdditions body outputs)
      (bodyRecords E chainView.tipIndex (bodyAdditions body outputs)
        unspentFor cpcList) cpc.coin) with
  | ok _ =>
      have hall := (h.checkRemovals_ok_iff_removable hE hresolved).mp hcheck
      obtain ⟨name, hname, hnot⟩ := hbad
      exact absurd (hall name hname) hnot
  | error e =>
      refine ⟨e.classified, ?_, ?_⟩
      · rw [h.acceptNewBlock_eq, hresolved.resolved, ok_bind, acceptResolved,
          h.puzzleHashes hresolved, ok_bind, hcheck]
        exact classifyUnexpected_eq_error_iff.mpr ⟨e, rfl, rfl⟩
      · rw [Exn.code_classified]
        obtain ⟨_, -, -, hcause⟩ := h.cause_of_error hE hresolved hcheck
        exact hcause.imp And.left And.left

/-- An error with one of the two codes comes from the removal check. -/
theorem cause_of_code (hE : E.Lawful) {e : Exn}
    (herror : acceptNewBlock E chainView header hashPreimage unspentFor
      coinbaseReward timestamp = .error e)
    (hcode : e.code = .unknownUnspent ∨ e.code = .doubleSpend) :
    ∃ name ∈ npcList.map Npc.coinName,
      ¬ Removable E (bodyAdditions body outputs) unspentFor chainView.tipIndex
          name ∧
        ((e.code = .unknownUnspent ∧
            UnknownCoin hashPreimage unspentFor chainView.tipIndex name) ∨
          (e.code = .doubleSpend ∧
            SpentCoin unspentFor chainView.tipIndex name)) := by
  by_cases hresolved : ∃ cpcList,
      ResolvedBody E body hashPreimage npcList outputs cpcList
  · obtain ⟨cpcList, hresolved⟩ := hresolved
    obtain ⟨e', hfailed, hsame⟩ :=
      h.checkRemovals_error hresolved herror hcode
    rw [← hsame]
    exact h.cause_of_error hE hresolved hfailed
  · obtain ⟨e', herror', hunknown⟩ := h.error_of_unresolved hresolved
    rw [herror] at herror'
    rw [Except.error.inj herror', hunknown] at hcode
    simp at hcode

/-- The two errors tell why a coin may not be removed exactly when there is no
such coin or every removed name resolves. -/
theorem classifiesRemovals_iff (hE : E.Lawful) :
    ClassifiesRemovals E (bodyAdditions body outputs)
        (npcList.map Npc.coinName) hashPreimage unspentFor chainView.tipIndex
        (acceptNewBlock E chainView header hashPreimage unspentFor
          coinbaseReward timestamp) ↔
      (∀ name ∈ npcList.map Npc.coinName,
        Removable E (bodyAdditions body outputs) unspentFor chainView.tipIndex
          name) ∨
      ∀ name ∈ npcList.map Npc.coinName,
        name ∈ (bodyAdditions body outputs).map (Coin.name E) ∨
          hashPreimage name ≠ none := by
  rw [← h.exists_resolved_iff hE]
  constructor
  · intro hclassifies
    by_contra hneither
    rw [not_or] at hneither
    have hbad := hneither.1
    push Not at hbad
    obtain ⟨e, herror, hcode⟩ := hclassifies.refused hbad
    obtain ⟨e', herror', hunknown⟩ := h.error_of_unresolved hneither.2
    rw [herror] at herror'
    rw [Except.error.inj herror', hunknown] at hcode
    simp at hcode
  · intro hcase
    constructor
    case refused =>
      intro hbad
      rcases hcase with hall | hresolved
      · obtain ⟨name, hname, hnot⟩ := hbad
        exact absurd (hall name hname) hnot
      · obtain ⟨cpcList, hresolved⟩ := hresolved
        exact h.error_of_not_removable hE hresolved hbad
    case unknown =>
      intro e herror hcode
      obtain ⟨name, hname, hnot, hwhy⟩ := h.cause_of_code hE herror (.inl hcode)
      refine ⟨name, hname, hnot, ?_⟩
      rcases hwhy with hunknown | hspent
      · exact hunknown.2
      · rw [hcode] at hspent
        simp at hspent
    case spent =>
      intro e herror hcode
      obtain ⟨name, hname, hnot, hwhy⟩ := h.cause_of_code hE herror (.inr hcode)
      refine ⟨name, hname, hnot, ?_⟩
      rcases hwhy with hunknown | hspent
      · rw [hcode] at hunknown
        simp at hunknown
      · exact hspent.2
    case passed =>
      intro hall e herror
      rw [← not_or]
      intro hcode
      obtain ⟨name, hname, hnot, -⟩ := h.cause_of_code hE herror hcode
      exact hnot (hall name hname)

end RemovingBlock

end Removals

namespace Reference

def strangeBody : Body :=
  body ⟨indexHash 1, SizedBytes.fill 32 3, blockReward⟩
    ⟨indexHash 1, SizedBytes.fill 32 4, 0⟩ [spend (SizedBytes.fill 32 9) []]

def strangeNpcs : List Npc :=
  (namePuzzleConditionsList environment
    strangeBody.solutionProgram).toOption.getD []

theorem strangeNpcs_names :
    strangeNpcs.map Npc.coinName = [SizedBytes.fill 32 9] := by
  decide +kernel

theorem strangeBlock_removing :
    RemovingBlock environment (genesisView 0) strangeBlock strangeBody
      (fun _ => none) strangeNpcs [] where
  npcList_eq := Except.eq_ok_getD (by decide +kernel) []
  outputs_eq := Except.toOption_eq_some_iff.mp (by decide +kernel)
  amounts := by decide
  additions_nodup := by decide +kernel
  removals_nodup := by
    rw [strangeNpcs_names]
    exact List.nodup_singleton _
  extendsTip := rfl
  body_eq := rfl
  keepsCoins _ _ _ hblob := by cases hblob
  reveals npc hnpc coin hcoin := by
    have hname : npc.coinName = SizedBytes.fill 32 9 := by
      have hmem := List.mem_map_of_mem (f := Npc.coinName) hnpc
      rw [strangeNpcs_names] at hmem
      exact List.mem_singleton.mp hmem
    have hmissing : (overlayStorage environment
        (bodyAdditions strangeBody []) fun _ => none)
          (SizedBytes.fill 32 9) = none := by
      decide +kernel
    rw [hname, coinPointerObj, hmissing] at hcoin
    cases hcoin

end Reference

open Reference in
theorem classifiesRemovals_iff_strange :
    ClassifiesRemovals environment (bodyAdditions strangeBody [])
        (strangeNpcs.map Npc.coinName) (fun _ => none) (fun _ => none) 0
        strangeOutcome ↔
      (∀ name ∈ strangeNpcs.map Npc.coinName,
        Removable environment (bodyAdditions strangeBody []) (fun _ => none) 0
          name) ∨
      ∀ name ∈ strangeNpcs.map Npc.coinName,
        name ∈ (bodyAdditions strangeBody []).map (Coin.name environment) ∨
          (none : Option Bytes) ≠ none :=
  strangeBlock_removing.classifiesRemovals_iff environment_lawful

open Reference in
/-- The coin without a preimage is answered with `UNKNOWN`. -/
theorem missing_coin_not_classified :
    ¬ (RemovingBlock environment (genesisView 0) strangeBlock strangeBody
        (fun _ => none) strangeNpcs [] →
      ClassifiesRemovals environment (bodyAdditions strangeBody [])
        (strangeNpcs.map Npc.coinName) (fun _ => none) (fun _ => none)
        (genesisView 0).tipIndex strangeOutcome) := by
  intro h
  have hclassifies := h strangeBlock_removing
  have hadded : SizedBytes.fill 32 9 ∉
      (bodyAdditions strangeBody []).map (Coin.name environment) := by
    decide +kernel
  have hbad : ∃ name ∈ strangeNpcs.map Npc.coinName,
      ¬ Removable environment (bodyAdditions strangeBody []) (fun _ => none)
        (genesisView 0).tipIndex name := by
    refine ⟨SizedBytes.fill 32 9, ?_, ?_⟩
    · rw [strangeNpcs_names]
      exact List.mem_singleton.mpr rfl
    · rintro (hmem | ⟨unspent, hrecord, -⟩)
      · exact hadded hmem
      · cases hrecord
  obtain ⟨e, herror, hcode⟩ := hclassifies.refused hbad
  have hunknown := strangeOutcome_code
  rw [herror] at hunknown
  rw [Option.some.inj hunknown] at hcode
  simp at hcode

end LedgerSim
