import LedgerSim.MinedBlocks
import LedgerSim.RemoteBlocks

/-!
# The server as a storage

`hash_preimage` makes a proxy a `Storage`.  Who has got a block, or only the
hashes in it, can ask for its parts from then on, and so can everybody else.
-/

namespace LedgerSim

open NonceWatcher HashChain

variable {E : Environment} {M : Messaging} {runtime : Runtime} {rounds : ℕ}

/-- A stored blob is found, or one that collides with it. -/
theorem Database.Keyed.exists_hashPreimage {db : Database} (h : db.Keyed E)
    {blob : Bytes} (hmem : blob ∈ db.stored) :
    ∃ found, db.hashPreimage (E.stdHash blob) = some found ∧
      (found = blob ∨ Collision E.stdHash [found, blob]) := by
  obtain ⟨⟨hash, blob⟩, hwrite, rfl⟩ := List.mem_map.mp hmem
  obtain ⟨found, hfound⟩ := Dict.exists_get_of_mem_writes hwrite
  have hhash := h hash blob hwrite
  have hsame := (h.stdHash_of_hashPreimage E hfound).1
  subst hhash
  exact ⟨found, hfound, eq_or_collision (by simp) (by simp) hsame.symm⟩

namespace LedgerAPI

/-- The parts of a block on the chain are stored. -/
theorem exists_stored {requests : List Request} {header : Header} {body : Body}
    (h : (header, body) ∈ blocks E requests) :
    ∃ headerBlob bodyBlob,
      header.bytes = .ok headerBlob ∧ body.bytes E = .ok bodyBlob ∧
      ∀ blob ∈ [headerBlob, bodyBlob], blob ∈ (run E requests).db.stored := by
  obtain ⟨earlier, coinbasePuzzleHash, feesPuzzleHash, later, rfl, f, a, hblock,
    hmined⟩ := exists_mined h
  obtain ⟨rfl, rfl⟩ := Prod.mk.inj hblock
  refine ⟨f.headerBlob, f.bodyBlob, f.header_bytes, f.body_bytes, ?_⟩
  have hlater := (run_mono (E := E)
    (earlier ++ [.nextBlock coinbasePuzzleHash feesPuzzleHash]) later).1
  rw [List.append_assoc, List.singleton_append, hmined, mined_db] at hlater
  intro blob hblob
  apply hlater
  rw [f.mem_applied_stored a]
  rcases List.mem_cons.mp hblob with rfl | hbody
  · exact .inr (.inr (.inl rfl))
  · exact .inr (.inl (List.mem_singleton.mp hbody))

end LedgerAPI

/-- A message with one argument. -/
theorem callMessage_one (name key : String) (nonce : ℕ) {arg arg' : PyObject}
    (harg : arg.transformToStreamable = .ok arg') :
    ∃ items, (callMessage name nonce [(key, arg)]).transformToStreamable =
      .ok (.dict items) ∧ messageKwargs items = some [(key, arg')] := by
  have hdict : (PyObject.dict [(.str key, arg)]).transformToStreamable =
      .ok (.dict [(.str key, arg')]) := by
    apply Except.bind_eq_ok
    · exact Except.bind_eq_ok harg rfl
    · rfl
  refine ⟨_, callMessage_streamable_iff.mpr ⟨_, hdict, rfl⟩, ?_⟩
  simp [messageKwargs, kwargsOf, PyObject.get, PyObject.contains, PyObject.key]

theorem messageKwargs_one {name key : String} {nonce : ℕ} {arg arg' : PyObject}
    {items : List (PyObject × PyObject)}
    (hmessage : (callMessage name nonce [(key, arg)]).transformToStreamable =
      .ok (.dict items)) (harg : arg.transformToStreamable = .ok arg') :
    messageKwargs items = some [(key, arg')] := by
  obtain ⟨items', hitems', hkwargs⟩ := callMessage_one name key nonce harg
  obtain rfl := PyObject.dict.inj
    (Except.ok.inj (hmessage.symm.trans hitems'))
  exact hkwargs

theorem getByHash_bytes {α : Type} (d : Bytes32 → Option α) (digest : Bytes32) :
    getByHash d (.bytes digest.1) = .ok (d digest) := by
  unfold getByHash
  simp [PyObject.hashable, digest.2]

namespace RemoteSystem

variable {ι : Type} {proxies : ι → Prop} [DecidableEq ι]
  {sys : RemoteSystem RunningLedger ι} {c : ι}
  {before : List ClientEvent} {kwargs : Kwargs} {value : PyObject}

/-- What `do_hash_preimage` returns. -/
def preimageResult (digest : Bytes32) (self : RunningLedger) : PyObject :=
  match self.ledger.db.hashPreimage digest with
  | some blob => .bytes blob
  | none => .none

theorem exists_preimage (hM : M.Lawful) (hdrops : M.DropsItems)
    (hformat : M.FormatsNames)
    (hrun : Run M (ledgerService E runtime rounds) proxies
      (initial RunningLedger.initial) sys) (hproxy : proxies c)
    {hash : PyObject} {digest : Bytes32}
    (hhash : hash.transformToStreamable = .ok (.bytes digest.1))
    (h : Askable M (ledgerService E runtime rounds) sys c "hash_preimage"
      [("hash", hash)] (preimageResult digest)) :
    ∃ sys' between value, Run M (ledgerService E runtime rounds) proxies sys sys' ∧
      (sys'.connections c).Gets M ((sys.connections c).events ++ between)
        "hash_preimage" [("hash", hash)] (.value value) := by
  obtain ⟨items, hmessage, hkwargs⟩ := callMessage_one "hash_preimage"
    "hash" _ hhash
  apply h.exists_gets hM hdrops hformat hrun hproxy hmessage hkwargs rfl
  intro self
  have hget := getByHash_bytes self.ledger.db.hashPreimage digest
  change some ((getByHash self.ledger.db.hashPreimage (.bytes digest.1)).map
    _) = _
  rw [hget]
  unfold preimageResult
  cases self.ledger.db.hashPreimage digest with
  | some blob => rfl
  | none => rfl

/-- Whoever asks for a preimage gets what the storage has under the hash once
the messages before the call's own have been handled. -/
theorem hash_preimage_answered (hM : M.Lawful) (hformat : M.FormatsNames)
    (hrun : Run M (ledgerService E runtime rounds) proxies
      (initial RunningLedger.initial) sys) (hproxy : proxies c)
    {hash : PyObject} {digest : Bytes32}
    (hhash : hash.transformToStreamable = .ok (.bytes digest.1))
    (hgets : (sys.connections c).Gets M before "hash_preimage" [("hash", hash)]
      (.value value)) :
    ∃ earlier message after,
      sys.served = earlier ++ (c, message) :: after ∧
      (callMessage "hash_preimage" (NonceWatcher.run M before).initialNonce
        [("hash", hash)]).transformToStreamable = .ok message ∧
      ∀ found, (LedgerAPI.run E (requests E M earlier)).db.hashPreimage
          digest = some found →
        transformed E "hash_preimage" (.value value) =
          .returned (.object (.bytes found)) := by
  obtain ⟨earlier, items, after, server, method, received, result, hserved,
      hmessage, hkwargs, hledger, hmethod, -, hresult, hvalue⟩ :=
    exists_returned hM hformat hrun hproxy hgets
  obtain rfl : LedgerService.doHashPreimage = method := Option.some.inj hmethod
  refine ⟨earlier, _, after, hserved, hmessage, ?_⟩
  intro found hfound
  rw [messageKwargs_one hmessage hhash] at hkwargs
  rw [← Option.some.inj hkwargs] at hresult
  obtain ⟨arg, harg, hget⟩ := Method.query_returned hresult
  obtain rfl : .bytes digest.1 = arg := Except.ok.inj harg
  rw [getByHash_bytes, hledger, hfound] at hget
  rw [← Except.ok.inj (Option.some.inj hget)] at hvalue
  rw [← Except.ok.inj hvalue]
  rfl

end RemoteSystem

namespace Reference

/-- The hash of the block of `blockHashes`. -/
def firstHeaderHash : Bytes32 :=
  (LedgerAPI.run environment [.nextBlock (SizedBytes.fill 32 3)
    (SizedBytes.fill 32 4)]).chainView.tipHash.hash

theorem firstHeaderHash_eq :
    ∀ block ∈ LedgerAPI.blocks environment (RemoteSystem.requests environment
        cborMessaging [((0 : ℕ), .dict blockItems)]),
      block.1.bytes.toOption.map environment.stdHash =
        some firstHeaderHash := by
  decide +kernel

end Reference

namespace RemoteSystem

variable {ι : Type} {proxies : ι → Prop} [DecidableEq ι]
  {sys : RemoteSystem RunningLedger ι} {c : ι}
  {before : List ClientEvent} {kwargs : Kwargs} {value : PyObject}

/-- The parts of a block that some caller has got can be asked for by anyone
from then on, and who asks gets them. -/
theorem preimage_after_block (hE : E.Lawful) (hkey : PlotKeySigns E)
    (hsexp : E.SexpRoundTrip) (hM : M.Lawful) (hdrops : M.DropsItems)
    (hformat : M.FormatsNames)
    (hrun : Run M (ledgerService E runtime rounds) proxies
      (initial RunningLedger.initial) sys) (hproxy : proxies c)
    (hblock : (sys.connections c).Gets M before "next_block" kwargs
      (.value value)) :
    ∃ header body headerBlob bodyBlob,
      transformed E "next_block" (.value value) =
        .returned (blockValue header body) ∧
      (header, body) ∈ LedgerAPI.blocks E (requests E M sys.served) ∧
      header.bytes = .ok headerBlob ∧ body.bytes E = .ok bodyBlob ∧
      ∀ blob ∈ [headerBlob, bodyBlob], ∀ hash : PyObject,
        hash.transformToStreamable = .ok (.bytes (E.stdHash blob).1) →
        ∀ sys', Run M (ledgerService E runtime rounds) proxies sys sys' →
          ∀ c', proxies c' →
            (∀ between value',
              (sys'.connections c').Gets M
                  ((sys.connections c').events ++ between) "hash_preimage"
                  [("hash", hash)] (.value value') →
                ∃ found,
                  transformed E "hash_preimage" (.value value') =
                    .returned (.object (.bytes found)) ∧
                  (found = blob ∨ Collision E.stdHash [found, blob])) ∧
            (Askable M (ledgerService E runtime rounds) sys' c' "hash_preimage"
                [("hash", hash)] (preimageResult (E.stdHash blob)) →
              ∃ sys'' between value',
                Run M (ledgerService E runtime rounds) proxies sys' sys'' ∧
                (sys''.connections c').Gets M
                  ((sys.connections c').events ++ between) "hash_preimage"
                  [("hash", hash)] (.value value')) := by
  obtain ⟨earlier, -, -, -, -, header, body, later, -, -, -, hchain, hgot, -⟩ :=
    next_block_answered hE hkey hsexp hM hformat hrun hproxy hblock
  have hmem : (header, body) ∈ LedgerAPI.blocks E (requests E M sys.served) := by
    rw [hchain]
    exact List.mem_append_right _ List.mem_cons_self
  obtain ⟨headerBlob, bodyBlob, hheader, hbody, hstored⟩ :=
    LedgerAPI.exists_stored hmem
  refine ⟨header, body, headerBlob, bodyBlob, hgot, hmem, hheader, hbody, ?_⟩
  intro blob hblob hash hhash sys' hlater c' hproxy'
  constructor
  · intro between value' hpreimage
    obtain ⟨earlier', message, after, hserved, hmessage, hfinds⟩ :=
      hash_preimage_answered hM hformat (hrun.trans hlater) hproxy' hhash
        hpreimage
    obtain ⟨more, hmore⟩ := requests_prefix (E := E) (M := M)
      ((inv_of_run hM hrun).served_before hlater hproxy' hmessage hserved)
    have hsince := (LedgerAPI.run_mono (E := E) (requests E M sys.served)
      more).1 (hstored blob hblob)
    rw [hmore] at hsince
    obtain ⟨found, hfound, hsame⟩ :=
      (LedgerAPI.run_wellFormed _).keyed.exists_hashPreimage hsince
    exact ⟨found, hfinds found hfound, hsame⟩
  · intro hasks
    obtain ⟨sys'', between, value', hlater', hgets⟩ :=
      exists_preimage hM hdrops hformat (hrun.trans hlater) hproxy' hhash hasks
    obtain ⟨since, hsince⟩ := events_prefix_of_run hlater c'
    rw [← hsince, List.append_assoc] at hgets
    exact ⟨sys'', since ++ between, value', hlater', hgets⟩

open Reference in
/-- Another client asks for the header of the first block. -/
theorem preimage_after_block_other :
    ∃ sys sys' : RemoteSystem RunningLedger ℕ, ∃ before before' value value',
      ∃ header body headerBlob found, RemoteLedgerRun sys sys' ∧
      (sys.connections 0).Gets cborMessaging before "next_block" blockHashes
        (.value value) ∧
      (sys'.connections 1).Gets cborMessaging before' "hash_preimage"
        [("hash", .bytes firstHeaderHash.1)] (.value value') ∧
      transformed environment "next_block" (.value value) =
        .returned (blockValue header body) ∧
      header.bytes = .ok headerBlob ∧
      transformed environment "hash_preimage" (.value value') =
        .returned (.object (.bytes found)) ∧
      (found = headerBlob ∨
        Collision environment.stdHash [found, headerBlob]) := by
  obtain ⟨sys, before, value, hrun, hserving, hstate, hserved, hothers,
    hblock⟩ := exists_block
  obtain ⟨header, body, headerBlob, bodyBlob, hgot, hmem, hheader, -, hafter⟩ :=
    preimage_after_block environment_lawful plotKeySigns
      environment_sexpRoundTrip cborMessaging_lawful cborMessaging_dropsItems
      (fun _ => rfl) hrun trivial hblock
  have hdigest := firstHeaderHash_eq (header, body) (by rwa [hserved] at hmem)
  rw [hheader] at hdigest
  have hhash : environment.stdHash headerBlob = firstHeaderHash :=
    Option.some.inj hdigest
  have hnew := hothers 1 (by decide)
  have hunserved := unserved_of_initial (M := cborMessaging) sys hnew
  have hasks : Askable cborMessaging ledgerServer sys 1 "hash_preimage"
      [("hash", .bytes firstHeaderHash.1)] (preimageResult firstHeaderHash) := by
    refine ⟨hserving, by rw [hnew]; rfl, by rw [hunserved]; trivial, ?_, ?_⟩
    · rw [hnew]
      exact encodes_of_isSome (by decide +kernel)
    · rw [hunserved, hnew, hstate]
      exact encodes_of_isSome (by decide +kernel)
  have hclient := hafter headerBlob List.mem_cons_self
    (.bytes firstHeaderHash.1) (by rw [hhash]; rfl)
  rw [hhash] at hclient
  obtain ⟨sys', between, value', hlater, hpreimage⟩ :=
    (hclient sys .refl 1 trivial).2 hasks
  obtain ⟨found, hfound, hsame⟩ :=
    (hclient sys' hlater 1 trivial).1 between value' hpreimage
  exact ⟨sys, sys', before, _, value, value', header, body, headerBlob, found,
    hlater, hblock, hpreimage, hgot, hheader, hfound, hsame⟩

end RemoteSystem

end LedgerSim
