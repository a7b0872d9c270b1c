import LedgerSim.EnforcedConditions
import LedgerSim.HashChain

/-!
# Tree hashes

`tree_hash` tags an atom and a pair with different bytes, so the two are never
confused whatever an atom contains, and the digests of a pair have a fixed
length, so their concatenation splits in one way.  The collision that two
different trees with one hash would take is among the strings that were hashed.
-/

namespace LedgerSim

open HashChain

variable (E : Environment)

/-- What `tree_hash` passes to `sha256`, from the root down. -/
def Environment.treeStrings : SExp → List Bytes
  | .pair left right =>
      ([2] ++ (E.treeHash left).1 ++ (E.treeHash right).1) ::
        (treeStrings left ++ treeStrings right)
  | .atom blob => [[1] ++ blob]

/-- Hashing the two trees meets two different strings with one digest. -/
def TreeCollision (program program' : Program) : Prop :=
  Collision E.sha256 (E.treeStrings program ++ E.treeStrings program')

variable {E}

theorem TreeCollision.of_left {left right left' right' : SExp}
    (h : TreeCollision E left left') :
    TreeCollision E (.pair left right) (.pair left' right') := by
  apply Collision.mono _ h
  intro b hb
  simp only [Environment.treeStrings, List.mem_append, List.mem_cons] at hb ⊢
  tauto

theorem TreeCollision.of_right {left right left' right' : SExp}
    (h : TreeCollision E right right') :
    TreeCollision E (.pair left right) (.pair left' right') := by
  apply Collision.mono _ h
  intro b hb
  simp only [Environment.treeStrings, List.mem_append, List.mem_cons] at hb ⊢
  tauto

/-- Two tagged pairs of digests are the same string only if the digests are
the same. -/
theorem pairString_inj {left right left' right' : Bytes32}
    (h : [(2 : UInt8)] ++ left.1 ++ right.1 = [2] ++ left'.1 ++ right'.1) :
    left = left' ∧ right = right' := by
  simp only [List.cons_append, List.nil_append, List.cons.injEq, true_and] at h
  have hlength : left.1.length = left'.1.length := left.2.trans left'.2.symm
  have hparts := List.append_inj h hlength
  exact ⟨Subtype.ext hparts.1, Subtype.ext hparts.2⟩

/-- The string of the whole tree is hashed last. -/
def Environment.rootString (E : Environment) : SExp → Bytes
  | .pair left right => [2] ++ (E.treeHash left).1 ++ (E.treeHash right).1
  | .atom blob => [1] ++ blob

theorem treeHash_eq_rootString (program : Program) :
    E.treeHash program = E.sha256 (E.rootString program) := by
  cases program with
  | atom blob => rfl
  | pair left right => rfl

theorem rootString_mem (program : Program) :
    E.rootString program ∈ E.treeStrings program := by
  cases program with
  | atom blob => exact List.mem_singleton.mpr rfl
  | pair left right => exact List.mem_cons_self

/-- The strings at the two roots agree, or they are a collision. -/
theorem rootString_eq_or_collision {program program' : Program}
    (h : E.treeHash program = E.treeHash program') :
    E.rootString program = E.rootString program' ∨
      TreeCollision E program program' := by
  rw [treeHash_eq_rootString, treeHash_eq_rootString] at h
  have hmem := List.mem_append_left (E.treeStrings program')
    (rootString_mem (E := E) program)
  have hmem' := List.mem_append_right (E.treeStrings program)
    (rootString_mem (E := E) program')
  exact eq_or_collision hmem hmem' h

theorem eq_or_treeCollision {program program' : Program}
    (h : E.treeHash program = E.treeHash program') :
    program = program' ∨ TreeCollision E program program' := by
  induction program generalizing program' with
  | atom blob =>
      rcases rootString_eq_or_collision h with hstring | hcollision
      · cases program' with
        | atom blob' =>
            simp only [Environment.rootString, List.cons_append,
              List.nil_append, List.cons.injEq, true_and] at hstring
            exact .inl (congrArg SExp.atom hstring)
        | pair left' right' =>
            -- the tags differ
            simp [Environment.rootString] at hstring
      · exact .inr hcollision
  | pair left right ihleft ihright =>
      rcases rootString_eq_or_collision h with hstring | hcollision
      · cases program' with
        | atom blob' => simp [Environment.rootString] at hstring
        | pair left' right' =>
            have hhashes := pairString_inj hstring
            rcases ihleft hhashes.1 with hleft | hcollision
            · rcases ihright hhashes.2 with hright | hcollision
              · rw [hleft, hright]
                exact .inl rfl
              · exact .inr hcollision.of_right
            · exact .inr hcollision.of_left
      · exact .inr hcollision

/-! ## Revealed puzzles -/

variable (E) in
/-- The entry reveals a puzzle for the coin of its name, and any puzzle that
the coin's puzzle hash was made from is that one, collisions apart. -/
def RevealsCommitted (storage : Bytes32 → Option Bytes) (entry : SExp) :
    Prop :=
  ∃ coinName coin solution puzzle, EntryShape E entry coinName ∧
    coinPointerObj E storage coinName = .ok coin ∧
    entrySolution entry = .ok solution ∧ solution.first = .ok puzzle ∧
    ∀ committed, coin.puzzleHash = E.treeHash committed →
      puzzle = committed ∨ TreeCollision E puzzle committed

theorem AcceptedBody.revealsCommitted {tipIndex : ℕ} {body : Body}
    {hashPreimage : Bytes32 → Option Bytes}
    {unspentFor : Bytes32 → Option Unspent} {coinbaseReward timestamp : ℤ}
    (a : AcceptedBody E tipIndex body hashPreimage unspentFor coinbaseReward
      timestamp) :
    ∃ entries, E.run body.solutionProgram .null = .ok (.ofList entries) ∧
      ∀ entry ∈ entries, RevealsCommitted E
        (overlay (ramStorageOf E a.additions).hashPreimage hashPreimage)
        entry := by
  have hnpcs := (namePuzzleConditionsList_eq_ok_iff E).mp a.npcList_eq
  obtain ⟨entries, hrun, hentries⟩ := hnpcs
  refine ⟨entries, hrun, ?_⟩
  intro entry hentry
  obtain ⟨npc, hnpc, hread⟩ := Except.exists_of_mapM_eq_ok hentries hentry
  obtain ⟨hshape, solution, puzzle, hsolution, hpuzzle, hhash, -⟩ :=
    (npcEntry_eq_ok_iff E).mp hread
  obtain ⟨cpc, hcpc, hresolved⟩ := Except.exists_of_mapM_eq_ok a.resolved hnpc
  obtain ⟨coin, hcoin, heq⟩ := Except.bind_eq_ok_iff.mp hresolved
  have hcpcEq := Except.ok.inj heq
  have hchecked := a.puzzleHash cpc hcpc
  rw [← hcpcEq] at hchecked
  refine ⟨npc.coinName, coin, solution, puzzle, hshape, hcoin, hsolution,
    hpuzzle, ?_⟩
  intro committed hcommitted
  apply eq_or_treeCollision
  calc E.treeHash puzzle = npc.puzzleHash :=
        (Environment.programHash_eq_ok_iff.mp hhash).2.symm
    _ = coin.puzzleHash := hchecked
    _ = E.treeHash committed := hcommitted

/-- Equal tree hashes mean equal trees, and an accepted block reveals the
committed puzzles. -/
theorem treeHash_commits (E : Environment) :
    (∀ program program' : Program, E.treeHash program = E.treeHash program' →
      program = program' ∨ TreeCollision E program program') ∧
    ∀ (chainView : ChainView) (header : Header)
      (hashPreimage : Bytes32 → Option Bytes)
      (unspentFor : Bytes32 → Option Unspent) (coinbaseReward timestamp : ℤ)
      (additions : List Coin) (removals : List Bytes32),
      acceptNewBlock E chainView header hashPreimage unspentFor coinbaseReward
          timestamp = .ok (additions, removals) →
        ∃ body entries,
          header.bodyHash.obj E (Body.parse E) hashPreimage =
            .ok (some body) ∧
          E.run body.solutionProgram .null = .ok (.ofList entries) ∧
          ∀ entry ∈ entries, RevealsCommitted E
            (overlay (ramStorageOf E additions).hashPreimage hashPreimage)
            entry := by
  constructor
  · intro program program' h
    exact eq_or_treeCollision h
  · intro chainView header hashPreimage unspentFor coinbaseReward timestamp
      additions removals haccepted
    obtain ⟨-, body, hbody, a, hadditions, -⟩ :=
      (acceptNewBlock_eq_ok_iff E).mp haccepted
    obtain ⟨entries, hrun, hreveals⟩ := a.revealsCommitted
    rw [hadditions] at hreveals
    exact ⟨body, entries, hbody, hrun, hreveals⟩

open Reference in
theorem treeHash_commits_mixed :
    (puzzle mixedConditions = puzzle mixedConditions ∨
      TreeCollision environment (puzzle mixedConditions)
        (puzzle mixedConditions)) ∧
    ∃ body entries,
      (header ledgerGenesisHash (spendingBody mixedConditions)).bodyHash.obj
          environment (Body.parse environment) (fun _ => none) =
        .ok (some body) ∧
      environment.run body.solutionProgram .null = .ok (.ofList entries) ∧
      ∀ entry ∈ entries, RevealsCommitted environment
        (overlay (ramStorageOf environment mixedAdditions).hashPreimage
          fun _ => none) entry :=
  ⟨(treeHash_commits environment).1 _ _ rfl,
    (treeHash_commits environment).2 _ _ _ _ _ _ _ _ mixed_accepted⟩

end LedgerSim
