import SoloPool.Lib.MerkleTree
import SoloPool.Util.Sha256

namespace erikslund.util

/-- `SHA256D64` of one 64-byte blob. -/
def hash_pair (left right : Hash256) : Hash256 := sha256d (left.val ++ right.val)

/-- A value-initialized `Hash256`. -/
def zero_hash : Hash256 := .filled 0

def merkle_root (leaves : List Hash256) : Hash256 :=
  if leaves.isEmpty then zero_hash
  else (MerkleTree.climb hash_pair leaves.length leaves).headD zero_hash

/-- The path of the first leaf, whose place a zero hash takes. -/
def merkle_branch (other_leaves : List Hash256) : List Hash256 :=
  let level := zero_hash :: other_leaves
  MerkleTree.siblings hash_pair level.length level

def merkle_root_from_branch (coinbase : Hash256) (branch : List Hash256) : Hash256 :=
  branch.foldl hash_pair coinbase

section AnyHash

variable (hash : Hash256 → Hash256 → Hash256)

/-- `merkle_root` with the hash of a pair left open; so `merkle_branch` and
`merkle_root_from_branch` below. -/
def merkle_root_with (leaves : List Hash256) : Hash256 :=
  if leaves.isEmpty then zero_hash
  else (MerkleTree.climb hash leaves.length leaves).headD zero_hash

def merkle_branch_with (other_leaves : List Hash256) : List Hash256 :=
  let level := zero_hash :: other_leaves
  MerkleTree.siblings hash level.length level

def merkle_root_from_branch_with (coinbase : Hash256) (branch : List Hash256) : Hash256 := branch.foldl hash coinbase

theorem merkle_root_from_merkle_branch_with (coinbase : Hash256) (others : List Hash256) :
    merkle_root_from_branch_with hash coinbase (merkle_branch_with hash others) =
      merkle_root_with hash (coinbase :: others) := by
  have hhead := MerkleTree.climb_head hash (others.length + 1) zero_hash coinbase others
  rw [merkle_root_with, List.isEmpty_cons, if_neg Bool.false_ne_true, List.length_cons, List.headD_eq_head?_getD, hhead]
  rfl

end AnyHash

theorem merkle_root_eq : merkle_root = merkle_root_with hash_pair := rfl

theorem merkle_branch_eq : merkle_branch = merkle_branch_with hash_pair := rfl

theorem merkle_root_from_branch_eq : merkle_root_from_branch = merkle_root_from_branch_with hash_pair := rfl

/-- Folding the branch of the other leaves gives the root over all of them. -/
theorem merkle_root_from_merkle_branch (coinbase : Hash256) (others : List Hash256) :
    merkle_root_from_branch coinbase (merkle_branch others) = merkle_root (coinbase :: others) := by
  rw [merkle_root_eq, merkle_branch_eq, merkle_root_from_branch_eq]
  exact merkle_root_from_merkle_branch_with hash_pair coinbase others

end erikslund.util
