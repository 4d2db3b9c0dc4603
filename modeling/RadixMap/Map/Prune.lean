import RadixMap.Map.Merge
import RadixMap.Trie.Prune

/-!
# Bulk removal

Every value of a map is put to a test once, in the order of `entries`, and goes if the test holds. The
test may remember what it has seen.
-/
namespace RadixMap.IntMap

variable {V σ : Type}

def removeAll (map : IntMap V) (test : V → σ → Bool × σ) (state : σ) :
    Checked (Revision V × σ) := do
  let (some root, merges) ← map.mergedRoot | return (⟨empty, []⟩, state)
  let (verdict, state, fresh) ← root.prune test map.rootLevel (state, map.fresh)
  match verdict.remains? root with
  | some rest =>
    let (level, lowered, collapses) := rest.lower map.rootLevel
    let size ← lowered.count level
    return ({
      map := ⟨size, level, some lowered, none, fresh⟩
      journal := merges ++ collapses ++ [.bulkKept size map.size] }, state)
  | none => return (⟨empty, merges ++ [.bulkDropped map.size]⟩, state)

end RadixMap.IntMap
