import Mathlib
import RadixMap.Proofs.Invariant
import RadixMap.Proofs.Readers

/-!
# Freedom from faults

No check of this library fails on a map that steps make: not in a further step, a lookup, a traversal,
a comparison or a text, however long a cursor is used. The bounds that the checks leave to the types
of the machine hold too: paths have six branches at most, survivors are no more than slots, the staged
leaf is put in the place of its target, and sizes fit a word.
-/

namespace RadixMap

open Address

variable {V : Type}

theorem Node.length_survivors_le {E σ : Type} {prune : E → σ → Checked (Pruned E × σ)}
    {entries : List (Slot × E)} {state next : σ} {survivors : Survivors E}
    (hprune : pruneEntries prune entries state = .ok (survivors, next)) :
    survivors.entries.length ≤ entries.length := by
  induction entries generalizing state survivors next with
  | nil =>
      cases hprune
      exact le_rfl
  | cons entry rest ih =>
      obtain ⟨slot, element⟩ := entry
      obtain ⟨⟨verdict, middle⟩, -, hprune⟩ := Checked.bind_eq_ok hprune
      obtain ⟨⟨others, last⟩, hrest, hprune⟩ := Checked.bind_eq_ok hprune
      cases hprune
      have hlength := ih hrest
      have hhead : ((verdict.remains? element).map (slot, ·)).toList.length ≤ 1 := by
        cases verdict.remains? element with
        | none => exact Nat.zero_le 1
        | some rest => exact le_rfl
      rw [List.length_append, List.length_cons]
      omega

/-- However its elements are pruned, a node has no more survivors than slots. -/
def Node.FewSurvivors {E : Type} (node : Node E) : Prop :=
  ∀ (σ : Type) (prune : E → σ → Checked (Pruned E × σ)) (state next : σ) (survivors : Survivors E),
    pruneEntries prune node.entries state = .ok (survivors, next) →
      survivors.entries.length ≤ branching

theorem Node.WellFormed.fewSurvivors {E : Type} {node : Node E} (hwf : node.WellFormed) :
    node.FewSurvivors := by
  intro σ prune state next survivors hprune
  have hlength := Node.length_survivors_le hprune
  have hentries : node.entries.length ≤ 32 := by
    rw [hwf.stores.entries_eq, ← List.length_map (f := Prod.snd), Table.map_snd_entries]
    exact Table.length_elements_le _
  exact hlength.trans hentries

namespace Trie

/-- A way down from a trie to a part of it, with the branches that it passes. -/
inductive Descent : Trie V → List (Node (Trie V)) → Trie V → Prop
  | here (trie : Trie V) : Descent trie [] trie
  | down {node : Node (Trie V)} {slot : Slot} {child part : Trie V} {passed : List (Node (Trie V))}
      (hchild : node.find slot = some child) (hpart : Descent child passed part) :
      Descent (branch node) (node :: passed) part

/-- Ways down are short, and pruning a part leaves no more survivors than slots. -/
structure Bounded (trie : Trie V) : Prop where
  path : ∀ passed part, Descent trie passed part → passed.length ≤ maxLevel
  leaf : ∀ passed held, Descent trie passed (leaf held) → held.node.FewSurvivors
  branch : ∀ passed node, Descent trie passed (branch node) → node.FewSurvivors

theorem WellFormed.of_descent {level : Nat} {trie part : Trie V} {passed : List (Node (Trie V))}
    (hwf : trie.WellFormed level) (hpart : Descent trie passed part) :
    passed.length ≤ level ∧ part.WellFormed (level - passed.length) := by
  induction hpart generalizing level with
  | here trie => exact ⟨Nat.zero_le level, hwf⟩
  | down hchild _ ih =>
      cases level with
      | zero => cases hwf
      | succ level =>
          obtain ⟨hlength, hpart⟩ := ih (hwf.2.2 _ _ hchild)
          rw [List.length_cons, Nat.add_sub_add_right]
          exact ⟨by omega, hpart⟩

theorem WellFormed.bounded {level : Nat} {trie : Trie V} (hwf : trie.WellFormed level)
    (hlevel : level ≤ maxLevel) : trie.Bounded where
  path passed part hpart := (hwf.of_descent hpart).1.trans hlevel
  leaf passed held hpart := by
    have hnode := (hwf.of_descent hpart).2
    cases hrest : level - passed.length with
    | zero =>
        rw [hrest] at hnode
        exact Node.WellFormed.fewSurvivors hnode
    | succ rest =>
        rw [hrest] at hnode
        cases hnode
  branch passed node hpart := by
    have hnode := (hwf.of_descent hpart).2
    cases hrest : level - passed.length with
    | zero =>
        rw [hrest] at hnode
        cases hnode
    | succ rest =>
        rw [hrest] at hnode
        exact hnode.1.fewSurvivors

end Trie

namespace IntMap

/-- A trie into which the staged leaf of a map can be put: the way of its block ends at the target
itself. -/
def Takes (map : IntMap V) (root : Trie V) : Prop :=
  root.Bounded ∧ ∀ staging, map.staging = some staging →
    root.leafAt? staging.block map.rootLevel = .ok (some staging.target)

/-- No check fails on the map, whatever is done with it. -/
structure Unfailing (map : IntMap V) : Prop where
  apply : ∀ step : Step V, ∃ next, step.apply map = .ok next
  get? : ∀ key, ∃ value?, map.get? key = .ok value?
  contains : ∀ key, ∃ found, map.contains key = .ok found
  entries : ∃ entries, map.entries = .ok entries
  sortedEntries : ∃ entries, map.sortedEntries = .ok entries
  equals : ∀ [BEq V] (other : IntMap V), other.Reachable → ∃ same, map.equals other = .ok same
  cursor : ∃ cursor, map.cursor = .ok cursor ∧ ∀ calls, ∃ later,
    cursor.advance calls = .ok later ∧ later.branches.length ≤ maxLevel
  values : ∃ values, map.values = .ok values
  tree : ∀ display, ∃ text, map.tree display = .ok text
  serialize : ∀ {Output Error : Type} (writer : MapWriter V Output Error),
    ∃ answer, map.serialize writer = .ok answer
  level_le : map.rootLevel ≤ maxLevel
  size_le : map.size ≤ UInt32.size
  root : ∀ root, map.root = some root → map.Takes root
  merged : ∀ root merges, map.mergedRoot = .ok (some root, merges) → root.Bounded
  /-- A write elsewhere leaves the way to the target as it is. -/
  written : ∀ root key value written, map.root = some root →
    (ofKey key).minLevel ≤ map.rootLevel → map.stagingFor? (ofKey key) = none →
      root.write map.fresh (ofKey key) value map.rootLevel = .ok written → map.Takes written.trie
  /-- An erasure elsewhere leaves the way to the target as it is. -/
  erased : ∀ root key erased rest, map.root = some root →
    (ofKey key).minLevel ≤ map.rootLevel → map.stagingFor? (ofKey key) = none →
      root.erase? map.fresh (ofKey key) false map.rootLevel = .ok (some erased) →
        erased.trie? = some rest → map.Takes rest
  /-- The two ways part at a level of the trie. -/
  parting : ∀ staging key, map.staging = some staging → (ofKey key).minLevel ≤ map.rootLevel →
    map.stagingFor? (ofKey key) = none →
      1 ≤ (ofKey key ^^^ staging.block).minLevel ∧
        (ofKey key ^^^ staging.block).minLevel ≤ map.rootLevel

namespace Sound

variable {map : IntMap V}

theorem takes_root {root : Trie V} (hsound : map.Sound) (hroot : map.root = some root) :
    map.Takes root := by
  refine ⟨(hsound.root root hroot).bounded hsound.level_le, fun staging hstaging => ?_⟩
  obtain ⟨held, hheld, hleaf⟩ := hsound.leafAt?_block hstaging
  rw [hroot] at hheld
  cases hheld
  exact hleaf

theorem takes_changed {root : Trie V} {address : Address} {leaf? : Option (Leaf V)}
    (hsound : map.Sound) (hstaged : map.stagingFor? address = none)
    (hroot : root.WellFormed map.rootLevel)
    (hleaves : Trie.leaves map.rootLevel (some root) = map.trieLeaves.update address leaf?) :
    map.Takes root := by
  refine ⟨hroot.bounded hsound.level_le, fun staging hstaging => ?_⟩
  rw [Trie.leafAt?_eq _ hroot hsound.level_le, hsound.leafOn_block hstaged hstaging hleaves]

theorem takes_written {root : Trie V} {address : Address} {value : V} {written : Written V}
    (hsound : map.Sound) (hroot : map.root = some root) (hreach : address.minLevel ≤ map.rootLevel)
    (hstaged : map.stagingFor? address = none)
    (hwrite : root.write map.fresh address value map.rootLevel = .ok written) :
    map.Takes written.trie := by
  obtain ⟨other, hother, hwf, -, -, -, hpaths⟩ :=
    Trie.write_ok map.fresh address value (hsound.root root hroot) hsound.level_le
  rw [hwrite] at hother
  cases hother
  have hleaves : Trie.leaves map.rootLevel (some written.trie) =
      map.trieLeaves.update address (some written.leaf) := by
    rw [trieLeaves, hroot]
    exact Trie.leaves_eq_update hreach hpaths
  exact hsound.takes_changed hstaged hwf hleaves

theorem takes_erased {root rest : Trie V} {address : Address} {erased : Erased V}
    (hsound : map.Sound) (hroot : map.root = some root) (hreach : address.minLevel ≤ map.rootLevel)
    (hstaged : map.stagingFor? address = none)
    (herase : root.erase? map.fresh address false map.rootLevel = .ok (some erased))
    (hrest : erased.trie? = some rest) : map.Takes rest := by
  have hwf := hsound.root root hroot
  by_cases habsent : ∀ leaf, root.leafOn address map.rootLevel = some leaf →
      false = false ∧ leaf.node.find (address.digit 0) = none
  · rw [Trie.erase?_absent map.fresh hwf hsound.level_le habsent] at herase
    cases herase
  · push Not at habsent
    obtain ⟨leaf, hleaf, hpresent⟩ := habsent
    have hheld := Option.ne_none_iff_exists'.mp (hpresent rfl)
    obtain ⟨other, hother, hrests, -, -, hpaths⟩ :=
      Trie.erase?_present map.fresh hwf hsound.level_le hleaf
        (show false = true ∨ _ from Or.inr hheld)
    rw [herase] at hother
    cases hother
    have hleaves : Trie.leaves map.rootLevel (some rest) =
        map.trieLeaves.update address erased.leaf? := by
      rw [trieLeaves, hroot, ← hrest]
      exact Trie.leaves_eq_update hreach hpaths
    exact hsound.takes_changed hstaged (hrests rest hrest) hleaves

theorem cursor_never_fails (hsound : map.Sound) :
    ∃ cursor, map.cursor = .ok cursor ∧ ∀ calls, ∃ later,
      cursor.advance calls = .ok later ∧ later.branches.length ≤ maxLevel := by
  obtain ⟨cursor, hcursor, hyields⟩ := hsound.cursor_ok
  refine ⟨cursor, hcursor, fun calls => ?_⟩
  obtain ⟨later, hadvance, hlater⟩ := Cursor.advance_ok hyields calls
  exact ⟨later, hadvance, hlater.length_branches_le⟩

end Sound

theorem Refines.unfailing {map : IntMap V} {model : FiniteMap V} (hrefines : map.Refines model) :
    map.Unfailing := by
  have hsound := hrefines.sound
  exact {
    apply := fun step => (hrefines.apply_ok step).imp fun _ hnext => hnext.1
    get? := fun key => ⟨_, hsound.get?_eq key⟩
    contains := fun key => ⟨_, hsound.contains_eq key⟩
    entries := ⟨_, hsound.entries_eq⟩
    sortedEntries := hsound.sortedEntries_ok
    equals := fun other hother => (hsound.equals_eq hother.sound).imp fun _ hsame => hsame.1
    cursor := hsound.cursor_never_fails
    values := ⟨_, hsound.values_eq⟩
    tree := hsound.tree_ok
    serialize := fun writer => by
      obtain ⟨entries, hentries⟩ := hsound.sortedEntries_ok
      rw [serialize, hentries]
      exact ⟨_, rfl⟩
    level_le := hsound.level_le
    size_le := hsound.size ▸ Contents.size_le map.contents
    root := fun root hroot => hsound.takes_root hroot
    merged := fun root merges hmerge => by
      obtain ⟨root?, others, hother, hroots, -⟩ := hsound.mergedRoot_ok
      rw [hmerge] at hother
      cases hother
      exact (hroots root rfl).bounded hsound.level_le
    written := fun root key value written hroot hreach hstaged =>
      hsound.takes_written hroot hreach hstaged
    erased := fun root key erased rest hroot hreach hstaged =>
      hsound.takes_erased hroot hreach hstaged
    parting := fun staging key hstaging hreach hstaged =>
      hsound.parting_bounds hstaged hstaging hreach }

/-- No check fails when the map is listed. -/
structure Listable (map : IntMap Datum) : Prop where
  listing : ∃ text, map.listing = .ok text
  blockListing : ∃ text, map.blockListing = .ok text

theorem Sound.listable {map : IntMap Datum} (hsound : map.Sound) : map.Listable := by
  obtain ⟨entries, hentries⟩ := hsound.sortedEntries_ok
  exact {
    listing := ⟨_, by rw [listing, hentries, Checked.ok_bind, Checked.pure_eq]⟩
    blockListing := ⟨_, by rw [blockListing, hentries, Checked.ok_bind, Checked.pure_eq]⟩ }

/-- **No faults.** Nothing that is done with a map that steps make fails a check. -/
theorem reachable_never_fails :
    (∀ (V : Type) (map : IntMap V), map.Reachable → map.Unfailing) ∧
      ∀ map : IntMap Datum, map.Reachable → map.Listable := by
  constructor
  · intro V map hmap
    obtain ⟨model, hrefines⟩ := hmap.refines
    exact hrefines.unfailing
  · exact fun map hmap => hmap.sound.listable

/-- A map with a write to the staged block that its trie lacks fails no check. -/
theorem diverged_never_fails :
    let target : Leaf Datum := ⟨1, .one 6 (.integer 1)⟩
    let root : Trie Datum := .branch (.bitmap 5 [.leaf ⟨0, .one 3 (.text "a")⟩, .leaf target])
    let map : IntMap Datum :=
      ⟨3, 1, some root, some ⟨95, target, ⟨2, .bitmap 192 [.integer 1, .text "b"]⟩⟩, 3⟩
    map.Reachable ∧ map.Unfailing ∧ map.Listable := by
  intro target root map
  have hmap : map.Reachable :=
    .step (.insert 71 (.text "b")) (.step (.ofList [(3, .text "a"), (70, .integer 1)]) .empty rfl) rfl
  exact ⟨hmap, reachable_never_fails.1 Datum map hmap, reachable_never_fails.2 map hmap⟩

end IntMap

end RadixMap
