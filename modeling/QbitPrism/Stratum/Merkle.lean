import Mathlib
import QbitPrism.Tx.Hash
import QbitPrism.Tx.Strip

/-!
# The Merkle branch of the coinbase

`merkle_branch_for_coinbase` of `codec.rs` climbs the tree with zeros where the coinbase will be.
What it hashes with them is wrong, but only ever stands first on its level, and the branch takes
the second.
-/
namespace QbitPrism
open Checked ByteReader

variable (crypto : Crypto)

/-- Neighbours in pairs, as `as_chunks::<2>` has them: one left over is dropped. -/
def hashPairs : List (Bytes 32) → List (Bytes 32)
  | left :: right :: rest => crypto.hash256Pair left right :: hashPairs rest
  | _ => []

def evenLevel (level : List (Bytes 32)) : List (Bytes 32) :=
  if level.length % 2 ≠ 0 then level ++ level.getLast?.toList else level

/-- The second hash of every level, up to the level of one hash; the rounds bound the climb. -/
def branchLevels : ℕ → List (Bytes 32) → List (Bytes 32)
  | rounds + 1, first :: second :: rest =>
    second :: branchLevels rounds (hashPairs crypto (evenLevel (first :: second :: rest)))
  | _, _ => []

def merkleBranchForCoinbase (transactions : List (List UInt8)) : Except String (List (Bytes 32)) := do
  let stripped ← transactions.mapM stripWitnessTransaction
  let level := List.Vector.replicate 32 0 :: stripped.map crypto.hash256
  pure (branchLevels crypto level.length level)

def foldBranch (leaf : Bytes 32) (branch : List (Bytes 32)) : Bytes 32 :=
  branch.foldl crypto.hash256Pair leaf

theorem hashPairs_evenLevel (level : List (Bytes 32)) :
    hashPairs crypto (evenLevel level) = crypto.merklePairs level := by
  induction level using Crypto.merklePairs.induct with
  | case1 | case2 => rfl
  | case3 left right rest ih =>
    have hstep : evenLevel (left :: right :: rest) = left :: right :: evenLevel rest := by
      cases rest with
      | nil => simp [evenLevel]
      | cons next rest =>
        simp only [evenLevel, List.length_cons, List.getLast?_cons_cons]
        split_ifs <;> first | rfl | omega
    rw [hstep, hashPairs, ih, Crypto.merklePairs]

theorem merkleRoot_nil (first : Bytes 32) : crypto.merkleRoot first [] = first := by
  rw [Crypto.merkleRoot, Crypto.merkleLevels]

theorem merkleRoot_cons (first second : Bytes 32) (rest : List (Bytes 32)) :
    crypto.merkleRoot first (second :: rest) =
      crypto.merkleRoot (crypto.hash256Pair first second) (crypto.merklePairs rest) := by
  rw [Crypto.merkleRoot, List.length_cons, Crypto.merkleLevels]
  exact crypto.merkleLevels_enough _ (crypto.length_merklePairs rest)

theorem foldBranch_branchLevels {rounds : ℕ} (leaf placeholder : Bytes 32) {rest : List (Bytes 32)}
    (hrounds : rest.length ≤ rounds) :
    foldBranch crypto leaf (branchLevels crypto rounds (placeholder :: rest)) = crypto.merkleRoot leaf rest := by
  induction rounds generalizing leaf placeholder rest with
  | zero =>
    rw [List.length_eq_zero_iff.mp (Nat.le_zero.mp hrounds), merkleRoot_nil]
    rfl
  | succ rounds ih =>
    cases rest with
    | nil =>
      rw [merkleRoot_nil]
      rfl
    | cons second rest =>
      have hpairs := crypto.length_merklePairs rest
      rw [List.length_cons] at hrounds
      rw [branchLevels, hashPairs_evenLevel, Crypto.merklePairs, merkleRoot_cons]
      exact ih (crypto.hash256Pair leaf second) (crypto.hash256Pair placeholder second) (by omega)

variable {crypto}

/-- The branch of a template's transactions leads from every coinbase txid to the Merkle root of the
block with that coinbase. -/
theorem merkleBranchForCoinbase_root {transactions : List (List UInt8)} {branch : List (Bytes 32)}
    (h : merkleBranchForCoinbase crypto transactions = .ok branch) (coinbaseTxid : Bytes 32) :
    ∃ stripped, transactions.mapM stripWitnessTransaction = .ok stripped ∧
      foldBranch crypto coinbaseTxid branch =
        crypto.merkleRoot coinbaseTxid (stripped.map crypto.hash256) := by
  simp only [merkleBranchForCoinbase, bind_eq_ok, pure_eq_ok] at h
  obtain ⟨stripped, hstripped, rfl⟩ := h
  exact ⟨stripped, hstripped, foldBranch_branchLevels crypto coinbaseTxid _ (Nat.le_succ _)⟩

def legacyTransaction (tag : UInt8) : List UInt8 :=
  [1, 0, 0, 0, 1] ++ (List.replicate 32 tag ++ ([0, 0, 0, 0, 1, 0x51, 255, 255, 255, 255, 1] ++
    (leBytes 8 1000 ++ [1, 0x51, 0, 0, 0, 0])))

def threeTransactions : List (List UInt8) := [legacyTransaction 1, legacyTransaction 2, legacyTransaction 3]

theorem merkleBranchForCoinbase_root_three :
    ∃ branch stripped, merkleBranchForCoinbase constantCrypto threeTransactions = .ok branch ∧
      threeTransactions.mapM stripWitnessTransaction = .ok stripped ∧
      foldBranch constantCrypto (List.Vector.replicate 32 7) branch =
        constantCrypto.merkleRoot (List.Vector.replicate 32 7) (stripped.map constantCrypto.hash256) := by
  have hok : (merkleBranchForCoinbase constantCrypto threeTransactions).isOk = true := by decide +kernel
  obtain ⟨branch, hbranch⟩ := exists_of_isOk hok
  obtain ⟨stripped, hstripped, hroot⟩ :=
    merkleBranchForCoinbase_root hbranch (List.Vector.replicate 32 7)
  exact ⟨branch, stripped, hbranch, hstripped, hroot⟩

end QbitPrism
