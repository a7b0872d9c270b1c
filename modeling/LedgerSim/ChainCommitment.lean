import LedgerSim.HashChain
import LedgerSim.WireFormat

/-!
# What a tip hash commits to

A header names the header before it, its body and its proof of space by their
hashes.  Two histories that end in one tip hash are therefore the same history,
unless two of their encodings are a collision.
-/

namespace LedgerSim

open HashChain

variable (E : Environment)

/-- A header, the body and the proof of space that its pointers are hashes of,
and what is hashed. -/
structure HistoryBlock where
  header : Header
  body : Body
  proofOfSpace : ProofOfSpace
  headerBlob : Bytes
  bodyBlob : Bytes
  header_bytes : header.bytes = .ok headerBlob
  body_bytes : body.bytes E = .ok bodyBlob
  bodyHash_eq : header.bodyHash.hash = E.stdHash bodyBlob
  proofOfSpaceHash_eq :
    header.proofOfSpaceHash.hash = E.stdHash proofOfSpace.bytes

namespace HistoryBlock

variable {E}

def hash (block : HistoryBlock E) : Bytes32 :=
  E.stdHash block.headerBlob

def previousHash (block : HistoryBlock E) : Bytes32 :=
  block.header.previousHash.hash

def encodings (block : HistoryBlock E) : List Bytes :=
  [block.headerBlob, block.bodyBlob, block.proofOfSpace.bytes]

/-- `HeaderHash(header)` -/
theorem headerHash_eq (block : HistoryBlock E) :
    HashPointer.ofObject E Header.bytes block.header =
      .ok ⟨block.hash, some block.header⟩ :=
  Except.bind_eq_ok block.header_bytes rfl

/-- Equality of the dataclasses; a pointer is equal to another when the hashes
are. -/
structure Same (block block' : HistoryBlock E) : Prop where
  header : block.header.uncached = block'.header.uncached
  body : block.body = block'.body
  proofOfSpace : block.proofOfSpace = block'.proofOfSpace

/-- The blocks, the newest first, are a history from the genesis hash to the
tip hash. -/
def History (genesisHash : Bytes32) (chain : List (HistoryBlock E))
    (tipHash : Bytes32) : Prop :=
  Linked hash previousHash genesisHash chain tipHash

/-- Blocks with one header hash, when none of their encodings collide. -/
theorem same_of_hash_eq (hsexp : E.SexpRoundTrip)
    {block block' : HistoryBlock E} {encodings : List Bytes}
    (hblock : block.encodings ⊆ encodings)
    (hblock' : block'.encodings ⊆ encodings)
    (hfree : ¬ Collision E.stdHash encodings)
    (hhash : block.hash = block'.hash) :
    Same block block' ∧ block.previousHash = block'.previousHash := by
  have hinj : ∀ b ∈ block.encodings, ∀ b' ∈ block'.encodings,
      E.stdHash b = E.stdHash b' → b = b' := by
    intro b hb b' hb' heq
    have hstrings := eq_or_collision (hblock hb) (hblock' hb') heq
    exact hstrings.resolve_right hfree
  have hheaderBlob : block.headerBlob = block'.headerBlob :=
    hinj _ (by simp [HistoryBlock.encodings]) _
      (by simp [HistoryBlock.encodings]) hhash
  have hheader : block.header.uncached = block'.header.uncached := by
    have hbytes := block'.header_bytes
    rw [← hheaderBlob] at hbytes
    exact undoes_header.view_eq block.header_bytes hbytes
  -- the fields of the two headers agree, so the pointed hashes do
  have hfields := hheader
  simp only [Header.uncached, Header.mk.injEq, HashPointer.mk.injEq,
    and_true] at hfields
  have hprevious := hfields.1
  have hpos := hfields.2.2.2.1
  have hbodyHash := hfields.2.2.2.2.1
  rw [block.bodyHash_eq, block'.bodyHash_eq] at hbodyHash
  rw [block.proofOfSpaceHash_eq, block'.proofOfSpaceHash_eq] at hpos
  have hbodyBlob : block.bodyBlob = block'.bodyBlob :=
    hinj _ (by simp [HistoryBlock.encodings]) _
      (by simp [HistoryBlock.encodings]) hbodyHash
  have hposBytes : block.proofOfSpace.bytes = block'.proofOfSpace.bytes :=
    hinj _ (by simp [HistoryBlock.encodings]) _
      (by simp [HistoryBlock.encodings]) hpos
  refine ⟨⟨hheader, ?_, ?_⟩, hprevious⟩
  · have hbytes := block'.body_bytes
    rw [← hbodyBlob] at hbytes
    exact (undoes_body hsexp).view_eq block.body_bytes hbytes
  · exact undoes_proofOfSpace.view_eq rfl (congrArg Except.ok hposBytes.symm)

/-- The tip hash commits to the whole history. -/
theorem tipHash_commits (hsexp : E.SexpRoundTrip)
    {genesisHash tipHash : Bytes32} {chain chain' : List (HistoryBlock E)}
    (h : History genesisHash chain tipHash)
    (h' : History genesisHash chain' tipHash)
    (hgenesis : ∀ block ∈ chain ++ chain', block.hash ≠ genesisHash) :
    (chain.length = chain'.length ∧ List.Forall₂ Same chain chain') ∨
      Collision E.stdHash ((chain ++ chain').flatMap encodings) := by
  by_cases hcollision :
      Collision E.stdHash ((chain ++ chain').flatMap encodings)
  · exact .inr hcollision
  have hsub : ∀ block ∈ chain ++ chain',
      block.encodings ⊆ (chain ++ chain').flatMap encodings := by
    intro block hblock b hb
    exact List.mem_flatMap.mpr ⟨block, hblock, hb⟩
  have hsame : List.Forall₂ Same chain chain' := by
    apply Linked.forall₂ h h'
    · intro block hblock
      exact hgenesis block (List.mem_append_left _ hblock)
    · intro block hblock
      exact hgenesis block (List.mem_append_right _ hblock)
    · intro block hblock block' hblock' hhash
      exact same_of_hash_eq hsexp (hsub _ (List.mem_append_left _ hblock))
        (hsub _ (List.mem_append_right _ hblock')) hcollision hhash
  exact .inl ⟨hsame.length_eq, hsame⟩

end HistoryBlock

namespace Reference

def rewardBody (blockIndex : ℕ) : Body :=
  body ⟨indexHash blockIndex, SizedBytes.fill 32 3, blockReward⟩
    ⟨indexHash blockIndex, SizedBytes.fill 32 4, 0⟩ []

def rewardBlob (blockIndex : ℕ) : Bytes :=
  ((rewardBody blockIndex).bytes environment).toOption.getD []

theorem firstBody_bytes :
    (rewardBody 1).bytes environment = .ok (rewardBlob 1) :=
  Except.eq_ok_getD (by decide +kernel) []

theorem secondBody_bytes :
    (rewardBody 2).bytes environment = .ok (rewardBlob 2) :=
  Except.eq_ok_getD (by decide +kernel) []

/-- A header as it is read from its encoding. -/
def readHeader (previousHash : Bytes32) (blockIndex : ℕ) : Header :=
  ⟨⟨previousHash, none⟩, EORSignature.zero, 0,
    ⟨sha256 proofOfSpace.bytes, none⟩,
    ⟨sha256 (rewardBlob blockIndex), none⟩, sha256 []⟩

def headerBlob (previousHash : Bytes32) (blockIndex : ℕ) : Bytes :=
  (readHeader previousHash blockIndex).bytes.toOption.getD []

theorem readHeader_bytes (previousHash : Bytes32) (blockIndex : ℕ) :
    (readHeader previousHash blockIndex).bytes =
      .ok (headerBlob previousHash blockIndex) :=
  Except.eq_ok_getD rfl []

/-- A block as it is read from its encodings. -/
def storedBlock (previousHash : Bytes32) {blockIndex : ℕ}
    (hbody : (rewardBody blockIndex).bytes environment =
      .ok (rewardBlob blockIndex)) : HistoryBlock environment :=
  ⟨readHeader previousHash blockIndex, rewardBody blockIndex, proofOfSpace,
    headerBlob previousHash blockIndex, rewardBlob blockIndex,
    readHeader_bytes previousHash blockIndex, hbody, rfl, rfl⟩

/-- The same block as its farmer holds it, with the objects in its
pointers. -/
def heldBlock (previousHash : Bytes32) {blockIndex : ℕ}
    (hbody : (rewardBody blockIndex).bytes environment =
      .ok (rewardBlob blockIndex)) : HistoryBlock environment :=
  ⟨{ readHeader previousHash blockIndex with
      proofOfSpaceHash := ⟨sha256 proofOfSpace.bytes, some proofOfSpace⟩
      bodyHash := ⟨sha256 (rewardBlob blockIndex),
        some (rewardBody blockIndex)⟩ },
    rewardBody blockIndex, proofOfSpace, headerBlob previousHash blockIndex,
    rewardBlob blockIndex, readHeader_bytes previousHash blockIndex, hbody,
    rfl, rfl⟩

def firstStored : HistoryBlock environment :=
  storedBlock ledgerGenesisHash.hash firstBody_bytes

/-- Two blocks, the newest first. -/
def storedBlocks : List (HistoryBlock environment) :=
  [storedBlock firstStored.hash secondBody_bytes, firstStored]

def heldBlocks : List (HistoryBlock environment) :=
  [heldBlock firstStored.hash secondBody_bytes,
    heldBlock ledgerGenesisHash.hash firstBody_bytes]

def secondHash : Bytes32 :=
  (storedBlock firstStored.hash secondBody_bytes).hash

theorem tipHash_commits_secondBlock :
    (storedBlocks.length = heldBlocks.length ∧
        List.Forall₂ HistoryBlock.Same storedBlocks heldBlocks) ∨
      Collision environment.stdHash
        ((storedBlocks ++ heldBlocks).flatMap HistoryBlock.encodings) := by
  have hfirst : firstStored.hash ≠ ledgerGenesisHash.hash := by decide +kernel
  have hsecond : secondHash ≠ ledgerGenesisHash.hash := by decide +kernel
  have hstored : HistoryBlock.History ledgerGenesisHash.hash storedBlocks
      secondHash := ⟨rfl, rfl, rfl⟩
  have hfarmed : HistoryBlock.History ledgerGenesisHash.hash heldBlocks
      secondHash := ⟨rfl, rfl, rfl⟩
  apply HistoryBlock.tipHash_commits environment_sexpRoundTrip hstored hfarmed
  intro block hblock
  rcases List.mem_append.mp hblock with hblock | hblock
  · rcases List.mem_pair.mp hblock with rfl | rfl
    · exact hsecond
    · exact hfirst
  · rcases List.mem_pair.mp hblock with rfl | rfl
    · exact hsecond
    · exact hfirst

end Reference

end LedgerSim
