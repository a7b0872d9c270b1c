import LedgerSim.LedgerRun

/-!
# The chain in the server's memory

A pointer made from an object keeps the object.  The tip pointer of a server
that has run from genesis therefore leads through all headers and bodies of its
chain down to the genesis hash, and no storage is needed to follow it.  That no
header has the genesis hash is checked by the server itself: the signature that
the genesis tip must have is not the one that the plot key gives.
-/

namespace LedgerSim

variable (E : Environment)

/-- A pointer that keeps the header of a block, which keeps the body, and the
index that the block names. -/
structure RemembersBlock (blockIndex : ℕ) (pointer : HeaderHash)
    (block : Header × Body) : Prop where
  header : pointer.cached = some block.1
  hash_ne : pointer.hash ≠ ledgerGenesisHash.hash
  body : block.1.bodyHash.cached = some block.2
  bodyHash : ∃ blob, block.2.bytes E = .ok blob ∧
    block.1.bodyHash.hash = E.stdHash blob
  coinbase : block.2.coinbaseCoin.parentCoinInfo = indexHash blockIndex
  index_lt : blockIndex < 256 ^ 32

/-- The pointer leads through the blocks, the newest first, to the genesis
hash. -/
def Remembers : List (Header × Body) → HeaderHash → Prop
  | [], pointer => pointer = ledgerGenesisHash
  | block :: older, pointer =>
      RemembersBlock E (older.length + 1) pointer block ∧
        Remembers older block.1.previousHash

/-- Only the oldest header names the genesis hash. -/
theorem Remembers.hash_eq_genesis_iff {E : Environment}
    {chain : List (Header × Body)} {pointer : HeaderHash}
    (h : Remembers E chain pointer) :
    pointer.hash = ledgerGenesisHash.hash ↔ chain = [] := by
  cases chain with
  | nil =>
      rw [show pointer = ledgerGenesisHash from h]
      exact iff_of_true rfl rfl
  | cons block older => exact iff_of_false h.1.hash_ne (List.cons_ne_nil _ _)

/-- The parent that a body's coinbase coin names stands at a fixed place of
its encoding. -/
theorem Body.coinbase_of_bytes {E : Environment} {body : Body} {blob : Bytes}
    (h : body.bytes E = .ok blob) :
    (blob.drop 96).take 32 = body.coinbaseCoin.parentCoinInfo.1 := by
  obtain ⟨coinbase, hcoinbase, h⟩ := Except.bind_eq_ok_iff.mp h
  obtain ⟨fees, -, h⟩ := Except.bind_eq_ok_iff.mp h
  obtain ⟨program, -, h⟩ := Except.bind_eq_ok_iff.mp h
  obtain ⟨cost, -, h⟩ := Except.bind_eq_ok_iff.mp h
  obtain ⟨amount, -, hcoinbase⟩ := Except.bind_eq_ok_iff.mp hcoinbase
  rw [← Except.ok.inj h, ← Except.ok.inj hcoinbase]
  simp only [List.append_assoc]
  rw [List.drop_left' body.coinbaseSignature.sig.2]
  exact List.take_left' body.coinbaseCoin.parentCoinInfo.2

section Remembers

variable {E : Environment} {newer older : List (Header × Body)}
  {pointer : HeaderHash}

theorem Remembers.of_append (h : Remembers E (newer ++ older) pointer) :
    ∃ pointer', Remembers E older pointer' := by
  induction newer generalizing pointer with
  | nil => exact ⟨pointer, h⟩
  | cons first rest ih =>
      rw [List.cons_append] at h
      exact ih h.2

theorem Remembers.index_of_mem (h : Remembers E (newer ++ older) pointer)
    {later : Header × Body} (hlater : later ∈ newer) :
    ∃ index pointer', older.length < index ∧
      RemembersBlock E index pointer' later := by
  induction newer generalizing pointer with
  | nil => cases hlater
  | cons first rest ih =>
      rw [List.cons_append] at h
      obtain ⟨hfirst, hrest⟩ := h
      rw [List.length_append] at hfirst
      rcases List.mem_cons.mp hlater with rfl | hmem
      · exact ⟨_, pointer, by omega, hfirst⟩
      · exact ih hrest hmem

/-- Two blocks of a chain whose body hashes agree have bodies that collide. -/
theorem Remembers.collision {block later : Header × Body}
    (h : Remembers E (newer ++ block :: older) pointer) (hlater : later ∈ newer)
    (hsame : later.1.bodyHash.hash = block.1.bodyHash.hash) :
    ∃ b b', later.2.bytes E = .ok b ∧ block.2.bytes E = .ok b' ∧ b ≠ b' ∧
      E.stdHash b = E.stdHash b' := by
  obtain ⟨index, _, hindex, hlater⟩ := h.index_of_mem hlater
  obtain ⟨_, hblock, -⟩ := h.of_append
  obtain ⟨b, hb, hhash⟩ := hlater.bodyHash
  obtain ⟨b', hb', hhash'⟩ := hblock.bodyHash
  refine ⟨b, b', hb, hb', ?_, ?_⟩
  · intro heq
    -- the coinbase coins of the two blocks have different parents
    have hparent := Body.coinbase_of_bytes hb
    rw [heq, Body.coinbase_of_bytes hb', hlater.coinbase,
      hblock.coinbase] at hparent
    have hindices := indexHash_inj hblock.index_lt hlater.index_lt
      (Subtype.ext hparent)
    rw [List.length_cons] at hindex
    omega
  · rw [← hhash, ← hhash', hsame]

end Remembers

/-- The private key that signs headers is public knowledge, but not zero. -/
def PlotKeySigns : Prop :=
  plotPublicKey E ≠ zero32

variable {E}

/-- The signature that the server makes for a header with the genesis hash is
not the one that the check of the genesis tip asks for. -/
theorem Farmed.hash_ne_genesis (hE : E.Lawful) (hkey : PlotKeySigns E)
    {chainView : ChainView} {spendBundles : List SpendBundle}
    {coinbasePuzzleHash feesPuzzleHash : Bytes32} {now : ℕ}
    (f : Farmed E chainView spendBundles coinbasePuzzleHash feesPuzzleHash now)
    (hgenesis : chainView.genesisHash = ledgerGenesisHash)
    {newUnspentDb : Ref} {hashPreimage : Bytes32 → Option Bytes}
    {newView : ChainView}
    (hextend : chainView.extend E f.header f.signature newUnspentDb
      hashPreimage = .ok newView) :
    E.stdHash f.headerBlob ≠ ledgerGenesisHash.hash := by
  obtain ⟨blob, hblob, hview, hcheck⟩ :=
    (ChainView.extend_eq_ok_iff E).mp hextend
  have hsame : blob = f.headerBlob :=
    Except.ok.inj (hblob.symm.trans f.header_bytes)
  intro heq
  rw [hview, hgenesis, hsame, ChainView.checkTipSignature, if_pos heq] at hcheck
  have hzero := not_not.mp (Except.raiseIf_eq_ok_iff.mp hcheck)
  apply hkey
  have hsigned : eorBytes32 (plotPublicKey E) (E.hash256 f.headerBlob) =
      zero32 := congrArg EORSignature.val hzero
  have hmessage : E.hash256 f.headerBlob = zero32 := by
    rw [hE.hash256_eq]
    exact heq
  rw [hmessage, eorBytes32_comm, eorBytes32_zero_left] at hsigned
  exact hsigned

/-- A successful `new_chain_view` has farmed the block of the new tip. -/
theorem newChainView_ok {chainView newView : ChainView}
    {spendBundles : List SpendBundle}
    {coinbasePuzzleHash feesPuzzleHash : Bytes32} {now : ℕ} {db : Ref}
    {heap heap' : Heap} (hcls : (heap db).cls = .ramDB)
    (hrun : (newChainView E chainView spendBundles coinbasePuzzleHash
      feesPuzzleHash db db now).run heap = (.ok newView, heap')) :
    ∃ (f : Farmed E chainView spendBundles coinbasePuzzleHash feesPuzzleHash
        now) (hashPreimage : Bytes32 → Option Bytes),
      chainView.extend E f.header f.signature db hashPreimage =
        .ok newView := by
  cases hfarm : farmForChainView E chainView spendBundles coinbasePuzzleHash
      feesPuzzleHash now with
  | error e =>
      unfold newChainView at hrun
      rw [hfarm, Exec.run_bind_of_error (Exec.run_ofExcept _ _)] at hrun
      simp at hrun
  | ok farmed =>
      obtain ⟨f, -, -, -⟩ := (farmForChainView_eq_ok_iff E).mp hfarm
      rw [newChainView_of_farmed E f hcls] at hrun
      have hstored : ((heap.put db (f.stored (heap db))) db).cls = .ramDB := by
        rw [Heap.put_self]
        exact hcls
      obtain ⟨_, _, -, -, hextend, -⟩ :=
        (augmentChainView_ok_iff E hstored).mp hrun
      exact ⟨f, _, hextend⟩

namespace LedgerAPI

variable (E) in
/-- The state and the blocks of a run, seen from its tip. -/
structure RemembersChain (server : LedgerAPI)
    (chain : List (Header × Body)) : Prop where
  remembers : Remembers E chain.reverse server.chainView.tipHash
  length : chain.length = server.chainView.tipIndex

variable {self : LedgerAPI}

/-- A new block is put on the chain that the tip remembers. -/
theorem RemembersChain.attempt (hE : E.Lawful) (hkey : PlotKeySigns E)
    {chain : List (Header × Body)} (h : self.RemembersChain E chain)
    (hself : self.WellFormed E) {spendBundles : List SpendBundle}
    {coinbasePuzzleHash feesPuzzleHash : Bytes32} {newView : ChainView}
    {heap : Heap}
    (hattempt : self.attempt E spendBundles coinbasePuzzleHash
      feesPuzzleHash = (.ok newView, heap)) :
    ∃ header body,
      (∀ db, blockResponse E newView db = .ok (.block header (some body))) ∧
        Remembers E (chain ++ [(header, body)]).reverse newView.tipHash ∧
        chain.length + 1 = newView.tipIndex := by
  unfold LedgerAPI.attempt at hattempt
  rw [hself.unspentDb] at hattempt
  obtain ⟨f, hashPreimage, hextend⟩ := newChainView_ok hself.cls hattempt
  have hhash := f.hash_ne_genesis hE hkey hself.genesisHash hextend
  obtain ⟨blob, hblob, hview, -⟩ := (ChainView.extend_eq_ok_iff E).mp hextend
  have hsame : blob = f.headerBlob :=
    Except.ok.inj (hblob.symm.trans f.header_bytes)
  rw [hsame] at hview
  refine ⟨f.header, f.body, ?_, ?_, ?_⟩
  · intro db
    rw [hview]
    rfl
  · rw [List.reverse_append, List.reverse_singleton, List.singleton_append,
      hview]
    have hindex : chain.reverse.length + 1 = self.chainView.tipIndex + 1 := by
      rw [List.length_reverse, h.length]
    refine ⟨?_, h.remembers⟩
    rw [hindex]
    exact ⟨rfl, hhash, rfl, ⟨f.bodyBlob, f.body_bytes, rfl⟩, rfl, f.index_lt⟩
  · rw [hview, h.length]

theorem RemembersChain.step (hE : E.Lawful) (hkey : PlotKeySigns E)
    {chain : List (Header × Body)} (h : self.RemembersChain E chain)
    (hself : self.WellFormed E) (request : Request) :
    (LedgerAPI.step E self request).RemembersChain E
      (chain ++ newBlock E self request) := by
  have hsame : chain ++ [] = chain := List.append_nil chain
  have hcases := handle_cases E self request
  unfold newBlock
  generalize ((handle E request).run self).1 = response at hcases ⊢
  generalize LedgerAPI.step E self request = self' at hcases ⊢
  cases hcases with
  | unsigned _ => exact hsame.symm ▸ h
  | bundleRefused _ _ => exact hsame.symm ▸ ⟨h.remembers, h.length⟩
  | pushed _ _ => exact hsame.symm ▸ ⟨h.remembers, h.length⟩
  | blockRefused _ => exact hsame.symm ▸ ⟨h.remembers, h.length⟩
  | mined hattempt =>
      obtain ⟨header, body, hresponse, hremembers, hlength⟩ :=
        h.attempt hE hkey hself hattempt
      rw [hresponse]
      refine ⟨hremembers, ?_⟩
      rw [List.length_append]
      exact hlength
  | skipped ms => exact hsame.symm ▸ ⟨h.remembers, h.length⟩

theorem run_remembersChain (hE : E.Lawful) (hkey : PlotKeySigns E)
    (requests : List Request) :
    (run E requests).RemembersChain E (blocks E requests) := by
  induction requests using List.reverseRecOn with
  | nil => exact ⟨rfl, rfl⟩
  | append_singleton requests request ih =>
      rw [run_append, blocks_append]
      exact ih.step hE hkey (run_wellFormed requests) request

end LedgerAPI

end LedgerSim
