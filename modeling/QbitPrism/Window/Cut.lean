import Mathlib
import QbitPrism.Lib.MachineInt

/-!
# The per-node cut of a dual-writer window

A cut names, for each of the two nodes, the newest `share_seq` a window includes,
or none. No row has `share_seq` 0, so an entry is never 0.
-/
namespace QbitPrism
open MachineInt

/-- The highest `share_seq` a window takes from node 0 and from node 1. -/
structure WindowCut where
  node0 : Option U64
  node1 : Option U64
  node0_ne : node0 ≠ some 0
  node1_ne : node1 ≠ some 0
  deriving DecidableEq

namespace WindowCut

/-- The order of `Option<u64>`: `None` below every entry. -/
def entryLe : Option U64 → Option U64 → Bool
  | none, _ => true
  | some _, none => false
  | some a, some b => a.val ≤ b.val

/-- The entry for `node`; `none` for a node index the cut has no entry for. -/
def get (cut : WindowCut) (node : ℕ) : Option (Option U64) :=
  match node with
  | 0 => some cut.node0
  | 1 => some cut.node1
  | _ => none

/-- The highest entry: no row the cut admits has a larger `share_seq`. -/
def top (cut : WindowCut) : Option U64 :=
  if entryLe cut.node0 cut.node1 then cut.node1 else cut.node0

/-- Whether a row of `originNode` with `shareSeq` is inside the cut. -/
def admits (cut : WindowCut) (originNode : ℕ) (shareSeq : U64) : Bool :=
  match (cut.get originNode).join with
  | some entry => shareSeq.val ≤ entry.val
  | none => false

def covers (cut earlier : WindowCut) : Bool :=
  entryLe earlier.node0 cut.node0 && entryLe earlier.node1 cut.node1

end WindowCut

end QbitPrism
