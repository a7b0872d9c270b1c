import LedgerSim.Mempool

/-!
# The clock of the server

Requests can advance the clock by any amount, and nothing sets it back.  A
header has eight bytes for the seconds; a clock beyond these makes every later
block fail, and with it every later bundle.
-/

namespace LedgerSim

/-! ## Rounding -/

theorem divRoundEven_le (n d : ℕ) : divRoundEven n d ≤ n / d + 1 := by
  unfold divRoundEven
  dsimp only
  split_ifs
  · exact le_rfl
  · exact Nat.le_succ _

theorem le_divRoundEven (n d : ℕ) : n / d ≤ divRoundEven n d := by
  unfold divRoundEven
  dsimp only
  split_ifs
  · exact Nat.le_succ _
  · exact le_rfl

/-- A quotient rounds to less than an even number exactly if it is closer to
the number before. -/
theorem divRoundEven_lt_iff {n d m : ℕ} (hd : 0 < d) (hm : m % 2 = 0) :
    divRoundEven n d < m ↔ 2 * n + d < 2 * (d * m) := by
  have hn : d * (n / d) + n % d = n := Nat.div_add_mod n d
  have hr : n % d < d := Nat.mod_lt n hd
  unfold divRoundEven
  dsimp only
  generalize n / d = q at hn ⊢
  generalize n % d = r at hn hr ⊢
  subst hn
  rcases Nat.lt_trichotomy m (q + 1) with hlt | rfl | hgt
  · have hle : d * m ≤ d * q := Nat.mul_le_mul_left d (Nat.lt_succ_iff.mp hlt)
    split_ifs <;> omega
  · rw [Nat.mul_succ]
    split_ifs <;> omega
  · have hle : d * (q + 2) ≤ d * m := Nat.mul_le_mul_left d hgt
    rw [Nat.mul_add] at hle
    split_ifs <;> omega

/-! ## The limit -/

/-- The first clock whose seconds, rounded to a float, need a ninth byte. -/
def clockLimit : ℕ := 1000 * (2 ^ 64 - 2 ^ 10)

/-- The integer part of the float next to `now / 1000`, which lies between
`2 ^ exponent` and its double. -/
def floatSeconds (now exponent : ℕ) : ℕ :=
  if 52 ≤ exponent then
    divRoundEven now (1000 * 2 ^ (exponent - 52)) * 2 ^ (exponent - 52)
  else divRoundEven (now * 2 ^ (52 - exponent)) 1000 / 2 ^ (52 - exponent)

theorem clockSeconds_of_le {now : ℕ} (h : 1000 ≤ now) :
    clockSeconds now =
      if floatSeconds now (now / 1000).log2 < 2 ^ 1024 then
        .ok (floatSeconds now (now / 1000).log2)
      else .error PyException.overflowError := by
  unfold clockSeconds
  rw [if_neg (not_lt.mpr h)]
  rfl

section Exponent

variable {now exponent : ℕ}

/-- The integer part has no more digits than the quotient, or is a power of
two. -/
theorem floatSeconds_le (hnow : now < 1000 * 2 ^ (exponent + 1)) :
    floatSeconds now exponent ≤ 2 ^ (exponent + 1) := by
  unfold floatSeconds
  split_ifs with hexponent
  · have hpow : 2 ^ (exponent + 1) = 2 ^ 53 * 2 ^ (exponent - 52) := by
      rw [← pow_add]
      congr 1
      omega
    have hquotient : now / (1000 * 2 ^ (exponent - 52)) < 2 ^ 53 := by
      rw [Nat.div_lt_iff_lt_mul (by positivity), mul_left_comm, ← hpow]
      exact hnow
    rw [hpow]
    apply Nat.mul_le_mul_right
    exact (divRoundEven_le _ _).trans hquotient
  · have hpow : 2 ^ 53 = 2 ^ (52 - exponent) * 2 ^ (exponent + 1) := by
      rw [← pow_add]
      congr 1
      omega
    have hquotient : now * 2 ^ (52 - exponent) / 1000 < 2 ^ 53 := by
      rw [Nat.div_lt_iff_lt_mul (by decide), hpow, mul_assoc, mul_comm now,
        mul_comm _ 1000]
      exact (Nat.mul_lt_mul_left (by positivity)).mpr hnow
    apply Nat.div_le_of_le_mul
    rw [← hpow]
    exact (divRoundEven_le _ _).trans hquotient

theorem le_floatSeconds (hexponent : 52 ≤ exponent)
    (hnow : 1000 * 2 ^ exponent ≤ now) :
    2 ^ exponent ≤ floatSeconds now exponent := by
  unfold floatSeconds
  rw [if_pos hexponent]
  have hpow : 2 ^ exponent = 2 ^ 52 * 2 ^ (exponent - 52) := by
    rw [← pow_add]
    congr 1
    omega
  have hquotient : 2 ^ 52 ≤ now / (1000 * 2 ^ (exponent - 52)) := by
    rw [Nat.le_div_iff_mul_le (by positivity), mul_left_comm, ← hpow]
    exact hnow
  calc 2 ^ exponent = 2 ^ 52 * 2 ^ (exponent - 52) := hpow
    _ ≤ _ := Nat.mul_le_mul_right _ (hquotient.trans (le_divRoundEven _ _))

/-- Half of the step between two floats below the limit is rounded up to it. -/
theorem floatSeconds_lt_iff (now : ℕ) :
    floatSeconds now 63 < 2 ^ 64 ↔ now < clockLimit := by
  have heven : divRoundEven now (1000 * 2 ^ 11) < 2 ^ 53 ↔
      2 * now + 1000 * 2 ^ 11 < 2 * (1000 * 2 ^ 11 * 2 ^ 53) :=
    divRoundEven_lt_iff (by decide) (by decide)
  unfold clockLimit
  change divRoundEven now (1000 * 2 ^ 11) * 2 ^ 11 < 2 ^ 64 ↔ _
  constructor
  · intro h
    have hlt := heven.mp (by omega)
    omega
  · intro h
    have hlt := heven.mpr (by omega)
    omega

end Exponent

theorem clockSeconds_fits_iff {now : ℕ} :
    (∃ timestamp, clockSeconds now = .ok timestamp ∧ timestamp < 2 ^ 64) ↔
      now < clockLimit := by
  by_cases hsmall : now < 1000
  · have hzero : clockSeconds now = .ok 0 := if_pos hsmall
    refine iff_of_true ⟨0, hzero, by decide⟩ (hsmall.trans ?_)
    decide
  have hle : 1000 ≤ now := not_lt.mp hsmall
  have hquotient : now / 1000 ≠ 0 := by
    have := Nat.div_pos hle (by decide)
    omega
  have hclock := clockSeconds_of_le hle
  have hlower := Nat.log2_self_le hquotient
  have hupper : now / 1000 < 2 ^ ((now / 1000).log2 + 1) :=
    Nat.lt_log2_self
  generalize (now / 1000).log2 = exponent at hclock hlower hupper
  rw [Nat.le_div_iff_mul_le (by decide), mul_comm] at hlower
  rw [Nat.div_lt_iff_lt_mul (by decide), mul_comm] at hupper
  -- the float has 64 binary digits in front of the point only for 63
  have hfits : (∃ timestamp, clockSeconds now = .ok timestamp ∧
      timestamp < 2 ^ 64) ↔ floatSeconds now exponent < 2 ^ 64 := by
    rw [hclock]
    constructor
    · rintro ⟨timestamp, htimestamp, hlt⟩
      split_ifs at htimestamp
      rwa [Except.ok.inj htimestamp]
    · intro hlt
      have hfloat : floatSeconds now exponent < 2 ^ 1024 :=
        hlt.trans (pow_lt_pow_right₀ one_lt_two (by decide))
      exact ⟨_, if_pos hfloat, hlt⟩
  rw [hfits]
  rcases Nat.lt_trichotomy exponent 63 with hlt | rfl | hgt
  · have hpow : 2 ^ (exponent + 1) ≤ 2 ^ 63 :=
      Nat.pow_le_pow_right (by decide) hlt
    have hseconds := floatSeconds_le hupper
    unfold clockLimit
    exact iff_of_true (by omega) (by omega)
  · exact floatSeconds_lt_iff now
  · have hpow : 2 ^ 64 ≤ 2 ^ exponent := Nat.pow_le_pow_right (by decide) hgt
    have hseconds := le_floatSeconds (by omega) hlower
    unfold clockLimit
    exact iff_of_false (by omega) (by omega)

/-! ## Requests -/

variable (E : Environment)

variable {E} in
theorem Farmed.now_lt {chainView : ChainView} {spendBundles : List SpendBundle}
    {coinbasePuzzleHash feesPuzzleHash : Bytes32} {now : ℕ}
    (f : Farmed E chainView spendBundles coinbasePuzzleHash feesPuzzleHash
      now) : now < clockLimit := by
  have hfits : (0 : ℤ) ≤ f.timestamp ∧ (f.timestamp : ℤ) < 2 ^ 64 :=
    Header.exists_bytes_iff.mp ⟨_, f.header_bytes⟩
  apply clockSeconds_fits_iff.mp
  exact ⟨f.timestamp, f.timestamp_eq, by exact_mod_cast hfits.2⟩

variable {E} in
/-- Without fees the two rewards differ in their amounts. -/
theorem Farmed.reward_names_ne (hE : E.Lawful) {blobs : List Bytes}
    (hfree : CollisionFree E blobs) {chainView : ChainView}
    {spendBundles : List SpendBundle}
    {coinbasePuzzleHash feesPuzzleHash : Bytes32} {now : ℕ}
    (f : Farmed E chainView spendBundles coinbasePuzzleHash feesPuzzleHash now)
    (hclaims : f.claims = [])
    (hrewards : ∀ coin ∈ [f.body.coinbaseCoin, f.body.feesCoin],
      coin.bytes E ∈ blobs) :
    f.body.coinbaseCoin.name E ≠ f.body.feesCoin.name E := by
  have hfees : f.fees = 0 := by
    have heq := f.claimedFees_eq
    rw [hclaims] at heq
    exact (Except.ok.inj heq).symm
  intro heq
  have hcoins := hfree.name_inj hE (hrewards _ List.mem_cons_self)
    (hrewards _ (List.mem_cons_of_mem _ List.mem_cons_self)) heq
  have hamounts : blockReward = f.fees := congrArg Coin.amount hcoins
  rw [hfees] at hamounts
  exact absurd hamounts (by decide)

namespace LedgerAPI

def Answered (server : LedgerAPI) (request : Request) : Prop :=
  ∃ response, ((handle E request).run server).1 = .ok response

/-- The numbers in the next block fit: its time into the header, its index
into the parent of the reward coins. -/
def NextBlockFits (server : LedgerAPI) : Request → Prop
  | .nextBlock _ _ =>
      server.now < clockLimit ∧ server.chainView.tipIndex + 1 < 256 ^ 32
  | _ => True

instance (server : LedgerAPI) :
    ∀ request, Decidable (NextBlockFits server request)
  | .nextBlock _ _ => inferInstanceAs (Decidable (_ ∧ _))
  | .pushTx _ => inferInstanceAs (Decidable True)
  | .skipMilliseconds _ => inferInstanceAs (Decidable True)

/-- What the server stores with the next block, and the block's reward
coins. -/
def nextBlockStores (server : LedgerAPI)
    (coinbasePuzzleHash feesPuzzleHash : Bytes32) : List Bytes :=
  (step E server (.nextBlock coinbasePuzzleHash feesPuzzleHash)).db.stored ++
    (rewardCoins E server.chainView.tipIndex server.claims coinbasePuzzleHash
      feesPuzzleHash).map (Coin.bytes E)

/-- No two of the blobs of the next block have one hash, and none has the
genesis hash. -/
def NextBlockHashes (server : LedgerAPI) : Request → Prop
  | .nextBlock coinbasePuzzleHash feesPuzzleHash =>
      let blobs := nextBlockStores E server coinbasePuzzleHash feesPuzzleHash
      CollisionFree E blobs ∧ NoIndexHash E blobs 0
  | _ => True

instance (server : LedgerAPI) :
    ∀ request, Decidable (NextBlockHashes E server request)
  | .nextBlock _ _ => inferInstanceAs (Decidable (_ ∧ _))
  | .pushTx _ => inferInstanceAs (Decidable True)
  | .skipMilliseconds _ => inferInstanceAs (Decidable True)

variable {E} {server : LedgerAPI} {coinbasePuzzleHash feesPuzzleHash : Bytes32}

theorem exists_farmed_of_attempt {spendBundles : List SpendBundle}
    {view : ChainView} (h : (server.attempt E spendBundles coinbasePuzzleHash
      feesPuzzleHash).1 = .ok view) :
    Nonempty (Farmed E server.chainView spendBundles coinbasePuzzleHash
      feesPuzzleHash server.now) := by
  unfold attempt newChainView at h
  cases hfarm : farmForChainView E server.chainView spendBundles
      coinbasePuzzleHash feesPuzzleHash server.now with
  | error e =>
      rw [hfarm, Exec.run_bind_of_error (Exec.run_ofExcept _ _)] at h
      cases h
  | ok farmed =>
      obtain ⟨header, body, signature⟩ := farmed
      obtain ⟨f, -⟩ := (farmForChainView_eq_ok_iff E).mp hfarm
      exact ⟨f⟩

theorem exists_farmed_of_answered (h : Answered E server
      (.nextBlock coinbasePuzzleHash feesPuzzleHash)) :
    Nonempty (Farmed E server.chainView server.spendBundles coinbasePuzzleHash
      feesPuzzleHash server.now) := by
  obtain ⟨response, hresponse⟩ := h
  have hcases := handle_cases E server
    (.nextBlock coinbasePuzzleHash feesPuzzleHash)
  rw [hresponse] at hcases
  generalize step E server _ = server' at hcases
  generalize hok : Except.ok response = outcome at hcases
  cases hcases with
  | blockRefused _ => cases hok
  | mined hattempt =>
      exact exists_farmed_of_attempt (congrArg Prod.fst hattempt)

/-- With an empty mempool only the numbers can be in the way. -/
theorem answered_nextBlock_iff (hE : E.Lawful) (hserver : server.WellFormed E)
    (hempty : server.spendBundles = [])
    (hhashes : NextBlockHashes E server
      (.nextBlock coinbasePuzzleHash feesPuzzleHash)) :
    Answered E server (.nextBlock coinbasePuzzleHash feesPuzzleHash) ↔
      NextBlockFits server (.nextBlock coinbasePuzzleHash feesPuzzleHash) := by
  constructor
  · intro h
    obtain ⟨f⟩ := exists_farmed_of_answered h
    exact ⟨f.now_lt, f.index_lt⟩
  · rintro ⟨hnow, hindex⟩
    obtain ⟨hfree, hgenesis⟩ := hhashes
    obtain ⟨timestamp, hclock, hfits⟩ := clockSeconds_fits_iff.mpr hnow
    obtain ⟨f⟩ := exists_farmed_nil hE hempty hindex coinbasePuzzleHash
      feesPuzzleHash hclock hfits
    have hclaims : server.claims = [] := by
      unfold claims
      rw [hempty]
      rfl
    have hrewards : ∀ coin ∈ [f.body.coinbaseCoin, f.body.feesCoin],
        coin.bytes E ∈ nextBlockStores E server coinbasePuzzleHash
          feesPuzzleHash := by
      intro coin hcoin
      apply List.mem_append_right
      exact List.mem_map_of_mem (f.rewardCoins_eq.symm ▸ hcoin)
    have hnames := f.reward_names_ne hE hfree hclaims hrewards
    obtain ⟨a, houtputs⟩ := exists_accepted_nil hE hempty f server.db hnames
    have hanswered : FarmsMempool E server coinbasePuzzleHash
        feesPuzzleHash := by
      apply farmsMempool_of_accepted hE hserver hfree hgenesis _ f a
      · intro blob hblob
        rcases (f.mem_applied_stored a).mp hblob with hadded | hold
        · obtain ⟨coin, hcoin, rfl⟩ := List.mem_map.mp hadded
          have hreward := mem_additions_iff.mp hcoin
          rw [houtputs] at hreward
          exact hrewards coin (hreward.resolve_right List.not_mem_nil)
        · apply List.mem_append_left
          exact hserver.farmed_stored f (by simpa [Farmed.stored] using hold)
      · rw [hclaims]
        exact List.forall_mem_nil _
    obtain ⟨header, body, hresponse, -⟩ := hanswered
    exact ⟨_, hresponse⟩

theorem answered_skipMilliseconds (server : LedgerAPI) (ms : Bytes) :
    Answered E server (.skipMilliseconds ms) :=
  ⟨_, rfl⟩

/-- A block leaves nothing pending, and a failed block no more than before. -/
theorem step_spendBundles_nil (hempty : server.spendBundles = [])
    {request : Request} (hrequest : ∀ tx, request ≠ .pushTx tx) :
    (step E server request).spendBundles = [] := by
  have hcases := handle_cases E server request
  generalize ((handle E request).run server).1 = response at hcases
  generalize step E server request = server' at hcases ⊢
  cases hcases with
  | unsigned _ => exact hempty
  | bundleRefused _ _ => exact hempty
  | pushed _ _ => exact absurd rfl (hrequest _)
  | blockRefused _ => exact hempty
  | mined _ => rfl
  | skipped ms => exact hempty

theorem eachStep_answered_iff (hE : E.Lawful) (hserver : server.WellFormed E)
    (hempty : server.spendBundles = []) {requests : List Request}
    (hrequests : ∀ tx, .pushTx tx ∉ requests)
    (hhashes : EachStep E (NextBlockHashes E) server requests) :
    EachStep E (Answered E) server requests ↔
      EachStep E NextBlockFits server requests := by
  induction requests generalizing server with
  | nil => exact Iff.rfl
  | cons request requests ih =>
      obtain ⟨hhash, hhashes⟩ := hhashes
      have hrequest : ∀ tx, request ≠ .pushTx tx := by
        rintro tx rfl
        exact hrequests tx List.mem_cons_self
      have hrest : ∀ tx, .pushTx tx ∉ requests :=
        fun tx htx => hrequests tx (List.mem_cons_of_mem _ htx)
      refine and_congr ?_ (ih (hserver.step request).1
        (step_spendBundles_nil hempty hrequest) hrest hhashes)
      cases request with
      | pushTx tx => exact absurd rfl (hrequest tx)
      | skipMilliseconds ms =>
          exact iff_of_true (answered_skipMilliseconds server ms) trivial
      | nextBlock coinbasePuzzleHash feesPuzzleHash =>
          exact answered_nextBlock_iff hE hserver hempty hhash

/-! ## The clock of a run -/

def skippedMilliseconds : Request → ℕ
  | .skipMilliseconds ms => BigEndian.toNat ms
  | _ => 0

theorem step_now (server : LedgerAPI) (request : Request) :
    (step E server request).now =
      server.now + skippedMilliseconds request := by
  have hcases := handle_cases E server request
  generalize ((handle E request).run server).1 = response at hcases
  generalize step E server request = server' at hcases ⊢
  cases hcases with
  | unsigned _ => rfl
  | bundleRefused _ _ => rfl
  | pushed _ _ => rfl
  | blockRefused _ => rfl
  | mined _ => rfl
  | skipped ms => rfl

theorem run_now (requests : List Request) :
    (run E requests).now = (requests.map skippedMilliseconds).sum := by
  induction requests using List.reverseRecOn with
  | nil => rfl
  | append_singleton requests request ih =>
      rw [run_append, step_now, ih, List.map_append, List.sum_append]
      rfl

theorem exists_farmed_of_answered_pushTx {tx : SpendBundle}
    (h : Answered E server (.pushTx tx)) :
    Nonempty (Farmed E server.chainView (server.spendBundles ++ [tx])
      dryRunCoinbasePuzzleHash dryRunFeesPuzzleHash server.now) := by
  obtain ⟨response, hresponse⟩ := h
  have hcases := handle_cases E server (.pushTx tx)
  rw [hresponse] at hcases
  generalize step E server _ = server' at hcases
  cases hcases with
  | pushed _ hattempt =>
      exact exists_farmed_of_attempt (congrArg Prod.fst hattempt)

/-- Once the clock is at the limit, every later block and bundle is
refused. -/
theorem refused_of_clockLimit {start : List Request}
    (hlimit : clockLimit ≤ (run E start).now) (requests : List Request)
    {request : Request} (hrequest : ∀ ms, request ≠ .skipMilliseconds ms) :
    ¬ Answered E (run E (start ++ requests)) request := by
  have hclock : clockLimit ≤ (run E (start ++ requests)).now := by
    rw [run_now, List.map_append, List.sum_append, ← run_now]
    exact hlimit.trans (Nat.le_add_right _ _)
  intro hanswered
  cases request with
  | skipMilliseconds ms => exact hrequest ms rfl
  | nextBlock coinbasePuzzleHash feesPuzzleHash =>
      obtain ⟨f⟩ := exists_farmed_of_answered hanswered
      exact absurd f.now_lt (not_lt.mpr hclock)
  | pushTx tx =>
      obtain ⟨f⟩ := exists_farmed_of_answered_pushTx hanswered
      exact absurd f.now_lt (not_lt.mpr hclock)

/-- From an empty mempool, all blocks and skips of a run are answered exactly
if the clock stays below the limit whenever a block is requested. -/
theorem blocks_answered_iff (hE : E.Lawful) {start requests : List Request}
    (hempty : (run E start).spendBundles = [])
    (hrequests : ∀ tx, .pushTx tx ∉ requests)
    (hhashes : EachStep E (NextBlockHashes E) (run E start) requests) :
    EachStep E (Answered E) (run E start) requests ↔
      EachStep E NextBlockFits (run E start) requests :=
  eachStep_answered_iff hE (run_wellFormed start) hempty hrequests hhashes

end LedgerAPI

namespace Reference

/-- A block, and another one after a skip of the given bytes. -/
def skipBetweenBlocks (ms : Bytes) : List Request :=
  [.nextBlock (SizedBytes.fill 32 3) (SizedBytes.fill 32 4),
    .skipMilliseconds ms,
    .nextBlock (SizedBytes.fill 32 3) (SizedBytes.fill 32 4)]

theorem pushTx_notMem_skipBetweenBlocks (ms : Bytes) :
    ∀ tx, .pushTx tx ∉ skipBetweenBlocks ms := by
  intro tx htx
  simp [skipBetweenBlocks] at htx

end Reference

open Reference in
/-- Nine bytes are still below the limit. -/
theorem LedgerAPI.blocks_answered_iff_nine :
    EachStep environment (Answered environment) (run environment [])
      (skipBetweenBlocks (List.replicate 9 255)) :=
  (blocks_answered_iff environment_lawful rfl
    (pushTx_notMem_skipBetweenBlocks _) (by decide +kernel)).mpr
      (by decide +kernel)

open Reference in
/-- After a skip of ten bytes no block can be farmed. -/
theorem LedgerAPI.block_refused_after_skip :
    ¬ ∀ requests, (∀ tx, .pushTx tx ∉ requests) →
      EachStep environment (NextBlockHashes environment) initial requests →
        EachStep environment (Answered environment) initial requests := by
  intro h
  obtain ⟨-, -, ⟨response, hresponse⟩, -⟩ :=
    h (skipBetweenBlocks (List.replicate 10 255))
      (pushTx_notMem_skipBetweenBlocks _) (by decide +kernel)
  have hrefused : ((handle environment
      (.nextBlock (SizedBytes.fill 32 3) (SizedBytes.fill 32 4))).run
        (run environment ((skipBetweenBlocks (List.replicate 10 255)).take
          2))).1.toOption.isNone = true := by
    decide +kernel
  obtain ⟨e, hraised⟩ := Except.toOption_isNone_iff.mp hrefused
  exact absurd (hraised.symm.trans hresponse) (by simp)

end LedgerSim
