import Mathlib
import RadixMap.Proofs.History
import RadixMap.Proofs.Readers

/-!
# The canonical trie

Among maps that steps make, the contents determine the height and the trie with the staged leaf in it,
whatever the steps were: two such tries differ in nothing but the numbers that their leaves got. A bulk
removal that removes nothing brings that trie out.
-/

namespace RadixMap

open Address

variable {V : Type}

namespace Node

variable {E F : Type}

/-- The node with every element changed in its place. -/
def map (f : E → F) : Node E → Node F
  | one slot element => one slot (f element)
  | bitmap bits elements => bitmap bits (elements.map f)
  | full elements => full (elements.map f)

variable (f : E → F) (node : Node E)

theorem kind_map : (node.map f).kind = node.kind := by
  cases node <;> rfl

theorem elements_map : (node.map f).elements = node.elements.map f := by
  cases node <;> rfl

theorem wellFormed_map : (node.map f).WellFormed ↔ node.WellFormed := by
  cases node <;> simp [map, WellFormed]

theorem find_map (slot : Slot) : (node.map f).find slot = (node.find slot).map f := by
  have hindex : (node.map f).index? slot = node.index? slot := by cases node <;> rfl
  rw [find, find, hindex, elements_map]
  cases node.index? slot with
  | none => rfl
  | some index => simp

theorem entries_map : (node.map f).entries = node.entries.map (Prod.map id f) := by
  have hoccupancy : (node.map f).occupancy = node.occupancy := by cases node <;> rfl
  rw [entries, entries, hoccupancy, elements_map, List.zip_map_right]

end Node

namespace Trie

mutual

/-- The trie with the numbers of its leaves taken away: its nodes with their kinds, slots and elements,
and the values. -/
def unnumbered : Trie V → Trie V
  | leaf held => leaf ⟨0, held.node⟩
  | branch node => branch (unnumberedNode node)

def unnumberedNode : Node (Trie V) → Node (Trie V)
  | .one slot child => .one slot child.unnumbered
  | .bitmap bits children => .bitmap bits (unnumberedList children)
  | .full children => .full (unnumberedList children)

def unnumberedList : List (Trie V) → List (Trie V)
  | [] => []
  | child :: rest => child.unnumbered :: unnumberedList rest

end

theorem unnumbered_branch (node : Node (Trie V)) :
    (branch node).unnumbered = branch (node.map unnumbered) := by
  have hlist : ∀ children : List (Trie V), unnumberedList children = children.map unnumbered := by
    intro children
    induction children with
    | nil => rw [unnumberedList, List.map_nil]
    | cons child rest ih => rw [unnumberedList, ih, List.map_cons]
  cases node <;> simp [unnumbered, unnumberedNode, Node.map, hlist]

variable {level : Nat} {trie : Trie V}

theorem WellFormed.unnumbered (hwf : trie.WellFormed level) : trie.unnumbered.WellFormed level := by
  induction level generalizing trie with
  | zero =>
      obtain ⟨held, rfl, hheld⟩ := hwf.eq_leaf
      rw [Trie.unnumbered]
      exact hheld
  | succ level ih =>
      obtain ⟨node, rfl, hnode, hslots, hchildren⟩ := hwf.eq_branch
      have hchild : ∀ slot child, (node.map Trie.unnumbered).find slot = some child →
          ∃ held, node.find slot = some held ∧ held.unnumbered = child := by
        intro slot child hfind
        rw [Node.find_map] at hfind
        exact Option.map_eq_some_iff.mp hfind
      rw [unnumbered_branch]
      refine ⟨(Node.wellFormed_map _ node).mpr hnode, fun htop slot child hfind => ?_,
        fun slot child hfind => ?_⟩
      · obtain ⟨held, hheld, -⟩ := hchild slot child hfind
        exact hslots htop slot held hheld
      · obtain ⟨held, hheld, rfl⟩ := hchild slot child hfind
        exact ih (hchildren slot held hheld)

theorem leafOn_unnumbered (address : Address) (level : Nat) (trie : Trie V) :
    trie.unnumbered.leafOn address level =
      (trie.leafOn address level).map fun leaf => ⟨0, leaf.node⟩ := by
  induction level generalizing trie with
  | zero =>
      cases trie with
      | leaf held => rw [unnumbered]; rfl
      | branch node => rw [unnumbered_branch]; rfl
  | succ level ih =>
      cases trie with
      | leaf held => rw [unnumbered]; rfl
      | branch node =>
          rw [unnumbered_branch, leafOn, leafOn, Node.find_map]
          cases node.find (address.digit (level + 1)) with
          | none => rfl
          | some child => exact ih child

/-- Without a target, a trie is printed the same whatever numbers its leaves have. -/
theorem outline_unnumbered {W : Type} (f : V → W) (level : Nat) (slots : List Slot) (trie : Trie V) :
    trie.unnumbered.outline f none level slots = trie.outline f none level slots := by
  induction level generalizing trie slots with
  | zero =>
      cases trie with
      | leaf held => rw [unnumbered]; rfl
      | branch node => rw [unnumbered_branch, outline, outline, Node.kind_map]
  | succ level ih =>
      cases trie with
      | leaf held => rw [unnumbered]; rfl
      | branch node =>
          rw [unnumbered_branch, outline, outline, Node.kind_map, Node.entries_map,
            List.flatMap_map]
          simp only [Prod.map_fst, Prod.map_snd, id_eq, ih]

theorem leaves_none (address : Address) : leaves level (none : Option (Trie V)) address = none := by
  rw [leaves, Option.bind_none, ite_self]

theorem WellFormed.exists_leaves (hwf : trie.WellFormed level) (hlevel : level ≤ maxLevel) :
    ∃ address leaf, Trie.leaves level (some trie) address = some leaf := by
  obtain ⟨address, leaf, hreach, hleaf⟩ := hwf.exists_leaf hlevel
  exact ⟨address, leaf, by rw [leaves_of_reach hreach, Option.bind_some, hleaf]⟩

/-- Where two tries have leaves with the same values on every path, they differ in the numbers of the
leaves alone. -/
theorem unnumbered_eq_of_leaves_eq {left? right? : Option (Trie V)}
    (hleft : ∀ root, left? = some root → root.WellFormed level)
    (hright : ∀ root, right? = some root → root.WellFormed level) (hlevel : level ≤ maxLevel)
    (hleaves : ∀ address,
      (leaves level left? address).map Leaf.node = (leaves level right? address).map Leaf.node) :
    left?.map unnumbered = right?.map unnumbered := by
  cases left? with
  | none =>
      cases right? with
      | none => rfl
      | some right =>
          obtain ⟨address, leaf, hleaf⟩ := (hright right rfl).exists_leaves hlevel
          have hsame := hleaves address
          rw [leaves_none, hleaf] at hsame
          cases hsame
  | some left =>
      cases right? with
      | none =>
          obtain ⟨address, leaf, hleaf⟩ := (hleft left rfl).exists_leaves hlevel
          have hsame := hleaves address
          rw [leaves_none, hleaf] at hsame
          cases hsame
      | some right =>
          rw [Option.map_some, Option.map_some,
            (hleft left rfl).unnumbered.ext (hright right rfl).unnumbered hlevel]
          intro address hreach
          have hsame := congrArg (Option.map fun node => (⟨0, node⟩ : Leaf V)) (hleaves address)
          rw [Option.map_map, Option.map_map, leaves_of_reach hreach, leaves_of_reach hreach] at hsame
          rw [leafOn_unnumbered, leafOn_unnumbered]
          exact hsame

end Trie

namespace IntMap

namespace Sound

variable {left right : IntMap V} (hleft : left.Sound) (hright : right.Sound)

include hleft hright

theorem leaves_eq (hcontents : left.contents = right.contents) (address : Address) :
    (left.leaves address).map Leaf.node = (right.leaves address).map Leaf.node :=
  hleft.leaves_wellFormed.map_node_eq hright.leaves_wellFormed hcontents address

theorem rootLevel_le (hcontents : left.contents = right.contents) :
    left.rootLevel ≤ right.rootLevel := by
  rcases hleft.low with hzero | ⟨address, leaf, hmin, hleaf⟩
  · omega
  · by_contra hlt
    have hsame := hleft.leaves_eq hright hcontents address
    rw [hleaf, hright.leaves_of_not_reach (by omega)] at hsame
    cases hsame

theorem rootLevel_eq (hcontents : left.contents = right.contents) :
    left.rootLevel = right.rootLevel :=
  le_antisymm (hleft.rootLevel_le hright hcontents) (hright.rootLevel_le hleft hcontents.symm)

theorem mergedRoot_eq (hcontents : left.contents = right.contents) :
    ∃ leftRoot? rightRoot? leftMerges rightMerges, left.mergedRoot = .ok (leftRoot?, leftMerges) ∧
      right.mergedRoot = .ok (rightRoot?, rightMerges) ∧
      leftRoot?.map Trie.unnumbered = rightRoot?.map Trie.unnumbered := by
  obtain ⟨leftRoot?, leftMerges, hleftMerge, hleftRoots, hleftLeaves⟩ := hleft.mergedRoot_ok
  obtain ⟨rightRoot?, rightMerges, hrightMerge, hrightRoots, hrightLeaves⟩ := hright.mergedRoot_ok
  rw [← hleft.rootLevel_eq hright hcontents] at hrightRoots hrightLeaves
  refine ⟨leftRoot?, rightRoot?, leftMerges, rightMerges, hleftMerge, hrightMerge, ?_⟩
  apply Trie.unnumbered_eq_of_leaves_eq hleftRoots hrightRoots hleft.level_le
  rw [hleftLeaves, hrightLeaves]
  exact hleft.leaves_eq hright hcontents

end Sound

/-- Two maps without a staged leaf that differ at most in the numbers of their leaves. -/
structure Alike (left right : IntMap V) : Prop where
  size : left.size = right.size
  rootLevel : left.rootLevel = right.rootLevel
  root : left.root.map Trie.unnumbered = right.root.map Trie.unnumbered
  left_unstaged : left.staging = none
  right_unstaged : right.staging = none

theorem Alike.outlined_eq {left right : IntMap V} (halike : left.Alike right) {W : Type}
    (f : V → W) : left.outlined f = right.outlined f := by
  have hroot := halike.root
  rw [outlined, outlined, trieOutline, trieOutline, stagingOutline, stagingOutline,
    halike.left_unstaged, halike.right_unstaged, halike.rootLevel]
  cases hleft : left.root with
  | none =>
      rw [hleft, Option.map_none, eq_comm, Option.map_eq_none_iff] at hroot
      rw [hroot]
  | some root =>
      rw [hleft, Option.map_some, eq_comm, Option.map_eq_some_iff] at hroot
      obtain ⟨other, hother, hsame⟩ := hroot
      rw [hother]
      simp only [Option.map_none]
      rw [← Trie.outline_unnumbered f right.rootLevel [] root, ← hsame, Trie.outline_unnumbered]

theorem Sound.alike_of_unstaged {left right : IntMap V} (hleft : left.Sound) (hright : right.Sound)
    (hleftStaging : left.staging = none) (hrightStaging : right.staging = none)
    (hcontents : left.contents = right.contents) : left.Alike right := by
  have hlevel := hleft.rootLevel_eq hright hcontents
  refine ⟨?_, hlevel, ?_, hleftStaging, hrightStaging⟩
  · exact hleft.size.trans ((congrArg Contents.size hcontents).trans hright.size.symm)
  · apply Trie.unnumbered_eq_of_leaves_eq hleft.root (hlevel ▸ hright.root) hleft.level_le
    have hleaves := hleft.leaves_eq hright hcontents
    rw [leaves_of_unstaged hleftStaging, leaves_of_unstaged hrightStaging, trieLeaves, trieLeaves,
      ← hlevel] at hleaves
    exact hleaves

def never (_ : V) (state : Unit) : Bool × Unit :=
  (false, state)

theorem sieve_never {α : Type} (entries : List (α × V)) (state : Unit) :
    sieve never entries state = (entries, state) := by
  induction entries with
  | nil => rfl
  | cons entry rest ih =>
      rw [sieve, never, ih]
      rfl

theorem Sound.removeAll_never {map : IntMap V} (hsound : map.Sound) :
    ∃ revision, map.removeAll never () = .ok (revision, ()) ∧ revision.map.Sound ∧
      revision.map.staging = none ∧ revision.map.contents = map.contents := by
  obtain ⟨revision, hremove, hkept, hstaging, hcontents, -⟩ := hsound.removeAll_ok never ()
  rw [sieve_never] at hcontents
  refine ⟨revision, hremove, hkept, hstaging, funext fun address => Option.ext fun value => ?_⟩
  rw [hcontents, hsound.mem_addressed]

/-- **History independence.** Maps that any steps make and that answer every lookup alike have roots
at the same level and, but for the numbers of the leaves, the same canonical trie. After a bulk removal
of nothing nothing else tells them apart, and they have the same dump. -/
theorem reachable_canonical {left right : IntMap V} (hleft : left.Reachable)
    (hright : right.Reachable) (hsame : ∀ key, left.get? key = right.get? key) :
    left.rootLevel = right.rootLevel ∧
      (∃ leftRoot? rightRoot? leftMerges rightMerges,
        left.mergedRoot = .ok (leftRoot?, leftMerges) ∧
        right.mergedRoot = .ok (rightRoot?, rightMerges) ∧
        leftRoot?.map Trie.unnumbered = rightRoot?.map Trie.unnumbered) ∧
      ∃ leftKept rightKept, left.removeAll never () = .ok (leftKept, ()) ∧
        right.removeAll never () = .ok (rightKept, ()) ∧
        leftKept.map.Alike rightKept.map ∧
        ∀ display, ∃ text, leftKept.map.tree display = .ok text ∧
          rightKept.map.tree display = .ok text := by
  have hleft := hleft.sound
  have hright := hright.sound
  have hcontents : left.contents = right.contents := by
    funext address
    have hkey := hsame address.toKey
    rw [hleft.get?_eq, hright.get?_eq] at hkey
    exact Except.ok.inj hkey
  obtain ⟨leftKept, hleftKept, hleftSound, hleftStaging, hleftContents⟩ := hleft.removeAll_never
  obtain ⟨rightKept, hrightKept, hrightSound, hrightStaging, hrightContents⟩ :=
    hright.removeAll_never
  have halike : leftKept.map.Alike rightKept.map :=
    hleftSound.alike_of_unstaged hrightSound hleftStaging hrightStaging
      (hleftContents.trans (hcontents.trans hrightContents.symm))
  refine ⟨hleft.rootLevel_eq hright hcontents, hleft.mergedRoot_eq hright hcontents, leftKept,
    rightKept, hleftKept, hrightKept, halike, fun display => ?_⟩
  refine ⟨_, by rw [tree, hleftSound.dump_eq]; rfl, ?_⟩
  rw [tree, hrightSound.dump_eq, halike.outlined_eq]
  rfl

/-- Two blocks entered in either order: the staged block differs, and each leaf has another number. -/
theorem canonical_of_two_orders :
    let left : IntMap Nat :=
      ⟨2, 1, some (.branch (.bitmap 5 [.leaf ⟨0, .one 3 0⟩, .leaf ⟨1, .one 6 1⟩])),
        some ⟨95, ⟨1, .one 6 1⟩, ⟨1, .one 6 1⟩⟩, 2⟩
    let right : IntMap Nat :=
      ⟨2, 1, some (.branch (.bitmap 5 [.leaf ⟨1, .one 3 0⟩, .leaf ⟨0, .one 6 1⟩])),
        some ⟨31, ⟨1, .one 3 0⟩, ⟨1, .one 3 0⟩⟩, 2⟩
    left.Reachable ∧ right.Reachable ∧ (∀ key, left.get? key = right.get? key) ∧
      (left.rootLevel = right.rootLevel ∧
        (∃ leftRoot? rightRoot? leftMerges rightMerges,
          left.mergedRoot = .ok (leftRoot?, leftMerges) ∧
          right.mergedRoot = .ok (rightRoot?, rightMerges) ∧
          leftRoot?.map Trie.unnumbered = rightRoot?.map Trie.unnumbered) ∧
        ∃ leftKept rightKept, left.removeAll never () = .ok (leftKept, ()) ∧
          right.removeAll never () = .ok (rightKept, ()) ∧
          leftKept.map.Alike rightKept.map ∧
          ∀ display, ∃ text, leftKept.map.tree display = .ok text ∧
            rightKept.map.tree display = .ok text) := by
  intro left right
  have hleftStep : (Step.ofList [(3, 0), (70, 1)]).apply IntMap.empty = .ok left := rfl
  have hrightStep : (Step.ofList [(70, 1), (3, 0)]).apply IntMap.empty = .ok right := rfl
  have hleft : left.Reachable := .step _ .empty hleftStep
  have hright : right.Reachable := .step _ .empty hrightStep
  have hsame : ∀ key, left.get? key = right.get? key := by
    intro key
    rw [(refines_empty.of_apply hleftStep).represents.get?,
      (refines_empty.of_apply hrightStep).represents.get?]
    simp only [Step.replay, FiniteMap.insertAll, List.foldl_cons, List.foldl_nil]
    rw [Finmap.insert_insert_of_ne _ (by decide)]
  exact ⟨hleft, hright, hsame, reachable_canonical hleft hright hsame⟩

end IntMap

end RadixMap
