import Mathlib

/-!
# The two dual-writer nodes

Every row a node originates carries its index, and every `share_seq` it allocates has
its parity, so the keys the two nodes allocate never collide.
-/
namespace QbitPrism

/-- Node A (`0`) or node B (`1`). -/
inductive NodeIndex where
  | a
  | b
  deriving DecidableEq

namespace NodeIndex

/-- The value stored in `origin_node`. -/
def index : NodeIndex → ℕ
  | a => 0
  | b => 1

def peer : NodeIndex → NodeIndex
  | a => b
  | b => a

@[simp] theorem peer_peer (i : NodeIndex) : i.peer.peer = i := by
  cases i <;> rfl

@[simp] theorem peer_ne (i : NodeIndex) : i.peer ≠ i := by
  cases i <;> decide

theorem eq_or_eq_peer (i j : NodeIndex) : j = i ∨ j = i.peer := by
  cases i <;> cases j <;> decide

end NodeIndex

end QbitPrism
