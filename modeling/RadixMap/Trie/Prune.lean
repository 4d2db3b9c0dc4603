import RadixMap.Node.Prune
import RadixMap.Trie.Basic

/-!
# Pruning a trie

The values are tested in ascending order of their addresses. A part of which nothing is removed is
kept as it stands, and a branch that would be left empty goes. A leaf that loses some of its values is
replaced by a new one.
-/
namespace RadixMap.Trie

variable {V σ : Type}

/-- Prunes a trie; leaves that are made on the way are numbered from `fresh` up. The number after the
last one is returned beside the state of the test. -/
def prune (test : V → σ → Bool × σ) : Nat → Trie V → σ × Nat → Checked (Pruned (Trie V) × σ × Nat)
  | _, leaf held, (state, fresh) => do
    let (verdict, state) ← held.node.removeAll test state
    return (verdict.map fun rest => leaf ⟨fresh, rest⟩, state, fresh + 1)
  | 0, branch _, _ => .error .sunkenBranch
  | level + 1, branch node, state => do
    let (verdict, state) ← node.prune (prune test level) state
    return (verdict.map branch, state)

end RadixMap.Trie
