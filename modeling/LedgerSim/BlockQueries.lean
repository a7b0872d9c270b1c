import LedgerSim.RememberedChain

/-!
# Asking for blocks

`do_get_all_blocks` and `do_get_recent_blocks` follow the headers back from the
tip.  Both append the body of the first block as soon as they reach its header;
only the former stops there.
-/

namespace LedgerSim

variable (E : Environment)

/-! ## The walk -/

/-- `==` of two headers: dataclasses are compared field by field, and a pointer
is the bytes of its hash. -/
def Header.SameAs (header other : Header) : Prop :=
  header.previousHash.hash = other.previousHash.hash ∧
    header.previousSignature = other.previousSignature ∧
    header.timestamp = other.timestamp ∧
    header.proofOfSpaceHash.hash = other.proofOfSpaceHash.hash ∧
    header.bodyHash.hash = other.bodyHash.hash ∧
    header.extensionDataHash = other.extensionDataHash

instance (header other : Header) : Decidable (header.SameAs other) :=
  inferInstanceAs (Decidable (_ ∧ _))

/-- One round of either loop: the header that it goes on to, `update_list`, and
whether that header is the one of the first block. -/
def walkBack (hashPreimage : Bytes32 → Option Bytes)
    (travellingHeader : Header) (updateList : List (Option Body)) :
    Except Exn (Header × List (Option Body) × Bool) := do
  let body ← travellingHeader.bodyHash.obj E (Body.parse E) hashPreimage
  let updateList := updateList ++ [body]
  match ← travellingHeader.previousHash.obj E Header.parse hashPreimage with
  | none => .error PyException.attributeError
  | some travellingHeader =>
      if travellingHeader.previousHash.hash = zero32 then do
        let body ← travellingHeader.bodyHash.obj E (Body.parse E) hashPreimage
        .ok (travellingHeader, updateList ++ [body], true)
      else .ok (travellingHeader, updateList, false)

/-- The loop of `do_get_recent_blocks`; `none` is a loop that goes on. -/
def recentBlocksLoop (hashPreimage : Bytes32 → Option Bytes)
    (mostRecentHeader : Header) :
    ℕ → Header → List (Option Body) →
      Option (Except Exn (List (Option Body)))
  | 0, _, _ => none
  | fuel + 1, travellingHeader, updateList =>
      if travellingHeader.SameAs mostRecentHeader then some (.ok updateList)
      else
        match walkBack E hashPreimage travellingHeader updateList with
        | .error e => some (.error e)
        -- `continue` at the first block is the next round as well
        | .ok (travellingHeader, updateList, _) =>
            recentBlocksLoop hashPreimage mostRecentHeader fuel
              travellingHeader updateList

/-- The loop of `do_get_all_blocks`. -/
def allBlocksLoop (hashPreimage : Bytes32 → Option Bytes) :
    ℕ → Header → List (Option Body) →
      Option (Except Exn (List (Option Body)))
  | 0, _, _ => none
  | fuel + 1, travellingHeader, updateList =>
      match walkBack E hashPreimage travellingHeader updateList with
      | .error e => some (.error e)
      | .ok (_, updateList, true) => some (.ok updateList)
      | .ok (travellingHeader, updateList, false) =>
          allBlocksLoop hashPreimage fuel travellingHeader updateList

namespace LedgerAPI

/-- `do_get_recent_blocks` with a bound on its rounds.  `None` is not equal to
a header, and has no `body_hash`. -/
def doGetRecentBlocks (fuel : ℕ) (mostRecentHeader : Header)
    (self : LedgerAPI) : Option (Except Exn (List (Option Body))) :=
  let hashPreimage := self.db.hashPreimage
  match self.chainView.tipHash.obj E Header.parse hashPreimage with
  | .error e => some (.error e)
  | .ok none => some (.error PyException.attributeError)
  | .ok (some travellingHeader) =>
      (recentBlocksLoop E hashPreimage mostRecentHeader fuel travellingHeader
        []).map fun r => r.map List.reverse

/-- `do_get_all_blocks` with a bound on its rounds. -/
def doGetAllBlocks (fuel : ℕ) (self : LedgerAPI) :
    Option (Except Exn (List (Option Body))) :=
  let hashPreimage := self.db.hashPreimage
  match self.chainView.tipHash.obj E Header.parse hashPreimage with
  | .error e => some (.error e)
  | .ok none => some (.error PyException.attributeError)
  | .ok (some travellingHeader) =>
      if travellingHeader.previousHash.hash = zero32 then
        some ((travellingHeader.bodyHash.obj E (Body.parse E)
          hashPreimage).map fun body => [body])
      else
        (allBlocksLoop E hashPreimage fuel travellingHeader []).map
          fun r => r.map List.reverse

end LedgerAPI

variable {E} {hashPreimage : Bytes32 → Option Bytes}

theorem recentBlocksLoop_mono {mostRecentHeader header : Header}
    {fuel fuel' : ℕ} {updateList : List (Option Body)}
    {r : Except Exn (List (Option Body))}
    (h : recentBlocksLoop E hashPreimage mostRecentHeader fuel header
      updateList = some r) (hle : fuel ≤ fuel') :
    recentBlocksLoop E hashPreimage mostRecentHeader fuel' header updateList =
      some r := by
  induction fuel generalizing fuel' header updateList with
  | zero => cases h
  | succ fuel ih =>
      cases fuel' with
      | zero => omega
      | succ fuel' =>
          unfold recentBlocksLoop at h ⊢
          split_ifs at h ⊢ with hsame
          · exact h
          · cases hround : walkBack E hashPreimage header updateList with
            | error e =>
                rw [hround] at h
                exact h
            | ok next =>
                rw [hround] at h
                exact ih h (by omega)

theorem allBlocksLoop_mono {header : Header} {fuel fuel' : ℕ}
    {updateList : List (Option Body)} {r : Except Exn (List (Option Body))}
    (h : allBlocksLoop E hashPreimage fuel header updateList = some r)
    (hle : fuel ≤ fuel') :
    allBlocksLoop E hashPreimage fuel' header updateList = some r := by
  induction fuel generalizing fuel' header updateList with
  | zero => cases h
  | succ fuel ih =>
      cases fuel' with
      | zero => omega
      | succ fuel' =>
          unfold allBlocksLoop at h ⊢
          cases hround : walkBack E hashPreimage header updateList with
          | error e =>
              rw [hround] at h
              exact h
          | ok next =>
              rw [hround] at h
              obtain ⟨header', updateList', complete⟩ := next
              cases complete with
              | true => exact h
              | false => exact ih h (by omega)

/-! ## On a remembered chain -/

theorem RemembersBlock.obj {blockIndex : ℕ} {pointer : HeaderHash}
    {block : Header × Body} (h : RemembersBlock E blockIndex pointer block) :
    pointer.obj E Header.parse hashPreimage = .ok (some block.1) ∧
      block.1.bodyHash.obj E (Body.parse E) hashPreimage =
        .ok (some block.2) := by
  unfold HashPointer.obj
  rw [h.header, h.body]
  exact ⟨rfl, rfl⟩

/-- A round at a block with another one before it. -/
theorem Remembers.walkBack_eq {block next : Header × Body}
    {older : List (Header × Body)} {pointer : HeaderHash}
    (h : Remembers E (block :: next :: older) pointer)
    (updateList : List (Option Body)) :
    walkBack E hashPreimage block.1 updateList =
      .ok (next.1,
        updateList ++ [some block.2] ++
          (if older = [] then [some next.2] else []),
        decide (older = [])) := by
  obtain ⟨hblock, hnext, holder⟩ := h
  have hfirst : next.1.previousHash.hash = zero32 ↔ older = [] :=
    holder.hash_eq_genesis_iff
  unfold walkBack
  rw [hblock.obj.2, Except.ok_bind, hnext.obj.1, Except.ok_bind]
  dsimp only
  by_cases hempty : older = []
  · rw [if_pos (hfirst.mpr hempty), hnext.obj.2, if_pos hempty,
      decide_eq_true hempty]
    rfl
  · rw [if_neg fun heq => hempty (hfirst.mp heq), if_neg hempty,
      decide_eq_false hempty, List.append_nil]

/-- What is appended on the way to the older blocks: the body of the block that
is reached, if it is the first one. -/
def firstBody : List (Header × Body) → List Body
  | [first] => [first.2]
  | _ => []

@[simp] theorem firstBody_singleton (first : Header × Body) :
    firstBody [first] = [first.2] :=
  rfl

@[simp] theorem firstBody_cons_cons (block next : Header × Body)
    (older : List (Header × Body)) : firstBody (block :: next :: older) = [] :=
  rfl

/-- The bodies that `do_get_recent_blocks` appends on its way back through the
blocks, the newest first. -/
def recentBodies (mostRecentHeader : Header) :
    List (Header × Body) → List Body
  | [] => []
  | block :: older =>
      if block.1.SameAs mostRecentHeader then []
      else
        block.2 :: (firstBody older ++ recentBodies mostRecentHeader older)

theorem Remembers.recentBlocksLoop_eq {mostRecentHeader : Header}
    {block : Header × Body} {older : List (Header × Body)}
    {pointer : HeaderHash} (h : Remembers E (block :: older) pointer)
    (hsome : ∃ known ∈ block :: older, known.1.SameAs mostRecentHeader)
    (updateList : List (Option Body)) :
    recentBlocksLoop E hashPreimage mostRecentHeader (block :: older).length
        block.1 updateList =
      some (.ok (updateList ++
        (recentBodies mostRecentHeader (block :: older)).map some)) := by
  induction older generalizing block pointer updateList with
  | nil =>
      obtain ⟨known, hknown, hsame⟩ := hsome
      rw [List.mem_singleton.mp hknown] at hsame
      rw [List.length_singleton, recentBlocksLoop, recentBodies, if_pos hsame,
        if_pos hsame, List.map_nil, List.append_nil]
  | cons next older ih =>
      rw [List.length_cons, recentBlocksLoop, recentBodies]
      by_cases hsame : block.1.SameAs mostRecentHeader
      · rw [if_pos hsame, if_pos hsame, List.map_nil, List.append_nil]
      · have hrest : ∃ known ∈ next :: older,
            known.1.SameAs mostRecentHeader := by
          obtain ⟨known, hknown, hknownSame⟩ := hsome
          rcases List.mem_cons.mp hknown with rfl | hmem
          · exact absurd hknownSame hsame
          · exact ⟨known, hmem, hknownSame⟩
        rw [if_neg hsame, if_neg hsame, h.walkBack_eq]
        dsimp only
        rw [ih h.2 hrest]
        cases older with
        | nil => simp
        | cons second rest => simp

/-- What is appended when the first header that is met stands behind the blocks
`newer`. -/
theorem recentBodies_append {mostRecentHeader : Header}
    {newer older : List (Header × Body)} {block : Header × Body}
    (hnewer : ∀ later ∈ newer, ¬ later.1.SameAs mostRecentHeader)
    (hsame : block.1.SameAs mostRecentHeader) :
    recentBodies mostRecentHeader (newer ++ block :: older) =
      newer.map Prod.snd ++
        (if older = [] ∧ newer ≠ [] then [block.2] else []) := by
  induction newer with
  | nil => simp [recentBodies, hsame]
  | cons first rest ih =>
      rw [List.forall_mem_cons] at hnewer
      rw [List.cons_append, recentBodies, if_neg hnewer.1, ih hnewer.2]
      cases rest with
      | nil =>
          cases older with
          | nil => simp
          | cons second older => simp
      | cons second rest =>
          cases rest with
          | nil => simp
          | cons third rest => simp

theorem Remembers.allBlocksLoop_eq {block next : Header × Body}
    {older : List (Header × Body)} {pointer : HeaderHash}
    (h : Remembers E (block :: next :: older) pointer)
    (updateList : List (Option Body)) :
    allBlocksLoop E hashPreimage (older.length + 1) block.1 updateList =
      some (.ok (updateList ++
        (block :: next :: older).map fun block => some block.2)) := by
  induction older generalizing block next pointer updateList with
  | nil =>
      rw [allBlocksLoop, h.walkBack_eq]
      simp
  | cons second older ih =>
      rw [List.length_cons, allBlocksLoop, h.walkBack_eq]
      simp only [reduceCtorEq, if_false, List.append_nil, decide_false]
      rw [ih h.2]
      simp

/-- A loop that ends has appended something. -/
theorem allBlocksLoop_ne_nil {header : Header} {fuel : ℕ}
    {updateList : List (Option Body)} :
    allBlocksLoop E hashPreimage fuel header updateList ≠ some (.ok []) := by
  induction fuel generalizing header updateList with
  | zero => exact nofun
  | succ fuel ih =>
      unfold allBlocksLoop
      cases hround : walkBack E hashPreimage header updateList with
      | error e => simp
      | ok next =>
          obtain ⟨header', updateList', complete⟩ := next
          cases complete with
          | false => exact ih
          | true =>
              intro h
              obtain ⟨body, -, hround⟩ := Except.bind_eq_ok_iff.mp hround
              obtain ⟨previous, -, hround⟩ := Except.bind_eq_ok_iff.mp hround
              cases previous with
              | none => cases hround
              | some previous =>
                  dsimp only at hround
                  split_ifs at hround
                  · obtain ⟨first, -, hround⟩ :=
                      Except.bind_eq_ok_iff.mp hround
                    have hfields := Except.ok.inj hround
                    simp only [Prod.mk.injEq] at hfields
                    have hnil : updateList' = [] :=
                      Except.ok.inj (Option.some.inj h)
                    rw [← hfields.2.1] at hnil
                    simp at hnil
                  · have hfields := Except.ok.inj hround
                    simp at hfields

/-- A later header that is met ends the walk early. -/
theorem recentBodies_length_lt {mostRecentHeader : Header}
    {newer older : List (Header × Body)} {block later : Header × Body}
    (hlater : later ∈ newer) (hsame : later.1.SameAs mostRecentHeader) :
    (recentBodies mostRecentHeader (newer ++ block :: older)).length <
      newer.length := by
  induction newer with
  | nil => cases hlater
  | cons first rest ih =>
      rw [List.cons_append, recentBodies, List.length_cons]
      by_cases hfirst : first.1.SameAs mostRecentHeader
      · rw [if_pos hfirst]
        exact Nat.succ_pos _
      · have hrest : later ∈ rest := by
          rcases List.mem_cons.mp hlater with rfl | hmem
          · exact absurd hsame hfirst
          · exact hmem
        have hnone : firstBody (rest ++ block :: older) = [] := by
          cases rest with
          | nil => cases hrest
          | cons second rest =>
              cases rest with
              | nil => rfl
              | cons third rest => rfl
        rw [if_neg hfirst, hnone, List.nil_append, List.length_cons]
        exact Nat.succ_lt_succ (ih hrest)

/-! ## After any run -/

namespace LedgerAPI

variable {self : LedgerAPI} {chain : List (Header × Body)}

theorem doGetRecentBlocks_mono {mostRecentHeader : Header} {fuel fuel' : ℕ}
    {r : Except Exn (List (Option Body))}
    (h : self.doGetRecentBlocks E fuel mostRecentHeader = some r)
    (hle : fuel ≤ fuel') :
    self.doGetRecentBlocks E fuel' mostRecentHeader = some r := by
  unfold doGetRecentBlocks at h ⊢
  dsimp only at h ⊢
  split at h
  · exact h
  · exact h
  · obtain ⟨outcome, hloop, hr⟩ := Option.map_eq_some_iff.mp h
    rw [recentBlocksLoop_mono hloop hle, ← hr]
    rfl

theorem doGetAllBlocks_mono {fuel fuel' : ℕ}
    {r : Except Exn (List (Option Body))}
    (h : self.doGetAllBlocks E fuel = some r) (hle : fuel ≤ fuel') :
    self.doGetAllBlocks E fuel' = some r := by
  unfold doGetAllBlocks at h ⊢
  dsimp only at h ⊢
  split at h
  · exact h
  · exact h
  · split_ifs at h ⊢
    · exact h
    · obtain ⟨outcome, hloop, hr⟩ := Option.map_eq_some_iff.mp h
      rw [allBlocksLoop_mono hloop hle, ← hr]
      rfl

/-- The header of a block of the chain is met, and the walk ends. -/
theorem RemembersChain.doGetRecentBlocks_eq (h : self.RemembersChain E chain)
    {mostRecentHeader : Header} {known : Header × Body} (hknown : known ∈ chain)
    (hsame : known.1.SameAs mostRecentHeader) :
    self.doGetRecentBlocks E chain.reverse.length mostRecentHeader =
      some (.ok (((recentBodies mostRecentHeader chain.reverse).map
        some).reverse)) := by
  have hremembers := h.remembers
  have hmem : known ∈ chain.reverse := List.mem_reverse.mpr hknown
  cases hreverse : chain.reverse with
  | nil =>
      rw [hreverse] at hmem
      cases hmem
  | cons block older =>
      rw [hreverse] at hremembers hmem
      unfold doGetRecentBlocks
      dsimp only
      rw [hremembers.1.obj.1]
      dsimp only
      rw [hremembers.recentBlocksLoop_eq ⟨known, hmem, hsame⟩,
        List.nil_append]
      rfl

theorem RemembersChain.returnsRecent_iff (h : self.RemembersChain E chain)
    {mostRecentHeader : Header} {known : Header × Body} (hknown : known ∈ chain)
    (hsame : known.1.SameAs mostRecentHeader) {later : List (Header × Body)} :
    (∃ fuel, self.doGetRecentBlocks E fuel mostRecentHeader =
        some (.ok (later.map fun block => some block.2))) ↔
      recentBodies mostRecentHeader chain.reverse =
        later.reverse.map Prod.snd := by
  have hrun := h.doGetRecentBlocks_eq hknown hsame
  constructor
  · rintro ⟨fuel, hfuel⟩
    have hleft := doGetRecentBlocks_mono hfuel
      (Nat.le_max_left fuel chain.reverse.length)
    rw [doGetRecentBlocks_mono hrun (Nat.le_max_right fuel _)] at hleft
    have hbodies := congrArg List.reverse
      (Except.ok.inj (Option.some.inj hleft))
    rw [List.reverse_reverse, ← List.map_reverse,
      ← Function.comp_def some Prod.snd, ← List.map_map] at hbodies
    exact List.map_injective_iff.mpr (Option.some_injective _) hbodies
  · intro hbodies
    refine ⟨_, hrun.trans ?_⟩
    rw [hbodies, ← List.map_reverse, ← List.map_reverse, List.reverse_reverse,
      List.map_map]
    rfl

/-- Every body of the chain is returned, once. -/
theorem RemembersChain.doGetAllBlocks_eq (h : self.RemembersChain E chain)
    (hne : chain ≠ []) :
    self.doGetAllBlocks E chain.length =
      some (.ok (chain.map fun block => some block.2)) := by
  have hremembers := h.remembers
  have hall : chain.map (fun block => some block.2) =
      (chain.reverse.map fun block => some block.2).reverse := by
    rw [← List.map_reverse, List.reverse_reverse]
  rw [hall, ← List.length_reverse]
  cases hreverse : chain.reverse with
  | nil => exact absurd (List.reverse_eq_nil_iff.mp hreverse) hne
  | cons block older =>
      rw [hreverse] at hremembers
      have hfirst : block.1.previousHash.hash = zero32 ↔ older = [] :=
        hremembers.2.hash_eq_genesis_iff
      unfold doGetAllBlocks
      dsimp only
      rw [hremembers.1.obj.1]
      dsimp only
      cases older with
      | nil =>
          rw [if_pos (hfirst.mpr rfl), hremembers.1.obj.2]
          rfl
      | cons next older =>
          rw [if_neg fun heq => List.cons_ne_nil _ _ (hfirst.mp heq)]
          have hloop : allBlocksLoop E self.db.hashPreimage
              (block :: next :: older).length block.1 [] = _ :=
            allBlocksLoop_mono (hremembers.allBlocksLoop_eq []) (Nat.le_succ _)
          rw [hloop]
          rfl

/-- No outcome is the empty list. -/
theorem doGetAllBlocks_ne_nil {fuel : ℕ} :
    self.doGetAllBlocks E fuel ≠ some (.ok []) := by
  unfold doGetAllBlocks
  dsimp only
  split
  · simp
  · simp
  · next header hheader =>
      split_ifs
      · cases hbody : header.bodyHash.obj E (Body.parse E)
            self.db.hashPreimage with
        | error e => simp [Except.map]
        | ok body => simp [Except.map]
      · intro h
        obtain ⟨outcome, hloop, hr⟩ := Option.map_eq_some_iff.mp h
        cases outcome with
        | error e => cases hr
        | ok updateList =>
            have hnil := List.reverse_eq_nil_iff.mp (Except.ok.inj hr)
            rw [hnil] at hloop
            exact allBlocksLoop_ne_nil hloop

variable {requests : List Request}

/-- Called with the header of a block, the walk returns the later bodies unless
this is the first block and there are others, or a later header is the same. -/
theorem doGetRecentBlocks_iff (hE : E.Lawful) (hkey : PlotKeySigns E)
    {before after : List (Header × Body)} {block : Header × Body}
    {mostRecentHeader : Header}
    (hblocks : blocks E requests = before ++ block :: after)
    (hsame : block.1.SameAs mostRecentHeader) :
    (∃ fuel, (run E requests).doGetRecentBlocks E fuel mostRecentHeader =
        some (.ok (after.map fun later => some later.2))) ↔
      (before ≠ [] ∨ after = []) ∧
        ∀ later ∈ after, ¬ later.1.SameAs mostRecentHeader := by
  have hchain := run_remembersChain hE hkey requests
  rw [hblocks] at hchain
  have hmem : block ∈ before ++ block :: after :=
    List.mem_append_right _ List.mem_cons_self
  have hreverse : (before ++ block :: after).reverse =
      after.reverse ++ block :: before.reverse := by simp
  rw [hchain.returnsRecent_iff hmem hsame, hreverse]
  constructor
  · intro hbodies
    have hlater : ∀ later ∈ after, ¬ later.1.SameAs mostRecentHeader := by
      intro later hlater hagain
      have hlt : (recentBodies mostRecentHeader
          (after.reverse ++ block :: before.reverse)).length < _ :=
        recentBodies_length_lt (List.mem_reverse.mpr hlater) hagain
      rw [hbodies, List.length_map] at hlt
      exact lt_irrefl _ hlt
    refine ⟨?_, hlater⟩
    rw [recentBodies_append (by simpa using hlater) hsame] at hbodies
    by_contra hfirst
    push Not at hfirst
    rw [if_pos (by simpa using hfirst)] at hbodies
    simpa using congrArg List.length hbodies
  · rintro ⟨hfirst, hlater⟩
    rw [recentBodies_append (by simpa using hlater) hsame, if_neg,
      List.append_nil]
    rintro ⟨hbefore, hafter⟩
    rcases hfirst with hne | hnil
    · exact hne (List.reverse_eq_nil_iff.mp hbefore)
    · exact hafter (List.reverse_eq_nil_iff.mpr hnil)

/-- All bodies of the chain are returned, unless there is none. -/
theorem doGetAllBlocks_iff (hE : E.Lawful) (hkey : PlotKeySigns E) :
    (∃ fuel, (run E requests).doGetAllBlocks E fuel =
        some (.ok ((blocks E requests).map fun block => some block.2))) ↔
      1 ≤ (run E requests).chainView.tipIndex := by
  have hchain := run_remembersChain hE hkey requests
  rw [← hchain.length, Nat.one_le_iff_ne_zero, Ne, List.length_eq_zero_iff]
  constructor
  · rintro ⟨fuel, hrun⟩ hnil
    rw [hnil] at hrun
    exact doGetAllBlocks_ne_nil hrun
  · intro hne
    exact ⟨_, hchain.doGetAllBlocks_eq hne⟩

end LedgerAPI

/-! ## Two blocks, and none -/

open LedgerAPI

namespace Reference

theorem plotKeySigns : PlotKeySigns environment := by
  unfold PlotKeySigns
  decide +kernel

theorem spendRequests_tipIndex :
    (run environment spendRequests).chainView.tipIndex = 2 := by
  decide +kernel

theorem spendRequests_blocks : ∃ first second : Header × Body,
    blocks environment spendRequests = [first, second] := by
  have hlength := (run_remembersChain environment_lawful plotKeySigns
    spendRequests).length
  rw [spendRequests_tipIndex] at hlength
  exact List.length_eq_two.mp hlength

end Reference

open Reference

theorem LedgerAPI.doGetRecentBlocks_iff_second :
    ∃ first second : Header × Body,
      blocks environment spendRequests = [first, second] ∧
        ((∃ fuel, (run environment spendRequests).doGetRecentBlocks environment
            fuel second.1 = some (.ok [])) ↔
          ([first] ≠ [] ∨ ([] : List (Header × Body)) = []) ∧
            ∀ later ∈ ([] : List (Header × Body)),
              ¬ later.1.SameAs second.1) := by
  obtain ⟨first, second, hblocks⟩ := spendRequests_blocks
  refine ⟨first, second, hblocks, ?_⟩
  have hsplit : blocks environment spendRequests = [first] ++ second :: [] :=
    hblocks
  exact doGetRecentBlocks_iff environment_lawful plotKeySigns hsplit
    ⟨rfl, rfl, rfl, rfl, rfl, rfl⟩

/-- Asked for what follows the first of two blocks, the server also returns the
first body. -/
theorem LedgerAPI.doGetRecentBlocks_returns_first :
    ¬ ∀ (requests : List Request) (before after : List (Header × Body))
        (block : Header × Body),
      blocks environment requests = before ++ block :: after →
      ∃ fuel, (run environment requests).doGetRecentBlocks environment fuel
          block.1 =
        some (.ok (after.map fun later => some later.2)) := by
  intro h
  obtain ⟨first, second, hblocks⟩ := spendRequests_blocks
  have hreturns := h spendRequests [] [second] first hblocks
  have hchain := run_remembersChain environment_lawful plotKeySigns
    spendRequests
  rw [hblocks] at hchain
  have hsame : first.1.SameAs first.1 := ⟨rfl, rfl, rfl, rfl, rfl, rfl⟩
  have hbodies := (hchain.returnsRecent_iff List.mem_cons_self hsame).mp
    hreturns
  have hlength := congrArg List.length hbodies
  by_cases hsecond : second.1.SameAs first.1
  · simp [recentBodies, hsecond] at hlength
  · simp [recentBodies, hsecond, hsame] at hlength

theorem LedgerAPI.doGetAllBlocks_iff_two :
    (∃ fuel, (run environment spendRequests).doGetAllBlocks environment fuel =
        some (.ok ((blocks environment spendRequests).map
          fun block => some block.2))) ↔
      1 ≤ (run environment spendRequests).chainView.tipIndex :=
  doGetAllBlocks_iff environment_lawful plotKeySigns

/-- At genesis there is no header to start from. -/
theorem LedgerAPI.doGetAllBlocks_of_genesis_fails :
    ¬ ∀ requests : List Request,
      ∃ fuel, (run environment requests).doGetAllBlocks environment fuel =
        some (.ok ((blocks environment requests).map
          fun block => some block.2)) := by
  intro h
  obtain ⟨fuel, hrun⟩ := h []
  exact doGetAllBlocks_ne_nil hrun

end LedgerSim
