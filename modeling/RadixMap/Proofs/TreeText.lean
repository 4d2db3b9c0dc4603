import Mathlib
import RadixMap.Datum
import RadixMap.Proofs.Invariant
import RadixMap.Proofs.TrieDump

/-!
# The dump of a map

The text of a dump of integers tells all that the map holds. Its outline has the form of the trie, the
mark of the target stands where the staged block leads, and with the values of the staging section in
the place of those below the target it shows the entries of the map in their order.

Values are shown as they are, also those below the target, which need not be the map's any more: a
line feed in one of them would start a line of its own.
-/

namespace RadixMap

namespace IntMap

open Address

variable {V W : Type} {map : IntMap V}

theorem outlined_map (f : V → W) (map : IntMap V) :
    (map.outlined id).map (DumpLine.map f) = map.outlined f := by
  have htrie : map.trieOutline f = (map.trieOutline id).map (Prod.map id (DumpLine.map f)) := by
    unfold trieOutline
    split
    · exact Trie.outline_map f _ _ _ _
    · rfl
  have hstaging : map.stagingOutline f =
      (map.stagingOutline id).map (Prod.map id (DumpLine.map f)) := by
    unfold stagingOutline
    split
    · rw [List.map_cons, ← Trie.outline_map]
      rfl
    · rfl
  rw [outlined, outlined, htrie, hstaging, ← List.map_append, List.map_map, List.map_map]
  rfl

theorem placed_stagingOutline (f : V → W) (map : IntMap V) (before : List Slot) :
    DumpLine.placed before ((map.stagingOutline f).map (·.2)) = map.stagingOutline f := by
  unfold stagingOutline
  split
  · rename_i staging hstaging
    obtain ⟨after, hplaced⟩ := Trie.placed_outline f none 0 (Trie.leaf staging.leaf) [] []
    rw [List.append_nil, DumpLine.placed, List.append_nil] at hplaced
    rw [List.map_cons, DumpLine.placed]
    exact congrArg _ hplaced
  · rfl

theorem placed_trieOutline (f : V → W) (map : IntMap V) (rest : List (DumpLine W)) :
    ∃ after, DumpLine.placed [] ((map.trieOutline f).map (·.2) ++ rest) =
      map.trieOutline f ++ DumpLine.placed after rest := by
  unfold trieOutline
  split
  · exact Trie.placed_outline f _ _ _ _ _
  · exact ⟨[], rfl⟩

theorem placed_outlined (f : V → W) (map : IntMap V) :
    DumpLine.placed [] (map.outlined f) = map.trieOutline f ++ map.stagingOutline f := by
  obtain ⟨after, hplaced⟩ := map.placed_trieOutline f ((map.stagingOutline f).map (·.2))
  rw [outlined, List.map_append, hplaced, placed_stagingOutline]

theorem isTitle_trieOutline {f : V → W} {line : DumpLine W}
    (hmem : line ∈ (map.trieOutline f).map (·.2)) : (!line.isTitle) = true := by
  obtain ⟨line, hline, rfl⟩ := List.mem_map.mp hmem
  rw [Bool.not_eq_true']
  unfold trieOutline at hline
  split at hline
  · exact Trie.isTitle_outline hline
  · cases List.mem_singleton.mp hline
    rfl

theorem takeWhile_outlined (f : V → W) (map : IntMap V) :
    (map.outlined f).takeWhile (fun line => !line.isTitle) = (map.trieOutline f).map (·.2) := by
  rw [outlined, List.map_append, List.takeWhile_append_of_pos fun line => isTitle_trieOutline]
  unfold stagingOutline
  split
  · exact List.append_nil _
  · exact List.append_nil _

theorem dropWhile_outlined (f : V → W) (map : IntMap V) :
    (map.outlined f).dropWhile (fun line => !line.isTitle) = (map.stagingOutline f).map (·.2) := by
  rw [outlined, List.map_append, List.dropWhile_append_of_pos fun line => isTitle_trieOutline]
  unfold stagingOutline
  split <;> rfl

theorem stagedValues_outlined (f : V → W) {staging : Staging V}
    (hstaging : map.staging = some staging) :
    DumpLine.stagedValues (map.outlined f) = Trie.leafValues f staging.leaf.node := by
  rw [DumpLine.stagedValues, dropWhile_outlined, placed_stagingOutline,
    stagingOutline_of_staged f hstaging, Trie.outline, List.filterMap_cons_none rfl,
    List.filterMap_cons_none rfl, List.filterMap_map, Trie.leafValues, ← List.filterMap_eq_map]
  rfl

theorem title_mem_outlined_iff (f : V → W) (map : IntMap V) :
    DumpLine.stagingTitle ∈ map.outlined f ↔ map.staging.isSome = true := by
  rw [outlined, List.map_append, List.mem_append]
  constructor
  · rintro (htrie | hstaging)
    · cases isTitle_trieOutline htrie
    · unfold stagingOutline at hstaging
      split at hstaging
      · rename_i hstaged
        rw [hstaged]
        rfl
      · cases hstaging
  · intro hstaging
    obtain ⟨staging, hstaged⟩ := Option.isSome_iff_exists.mp hstaging
    rw [stagingOutline_of_staged f hstaged]
    exact Or.inr List.mem_cons_self

namespace Sound

variable (hsound : map.Sound)

include hsound

theorem leaf_wellFormed {staging : Staging V} (hstaging : map.staging = some staging) :
    (Trie.leaf staging.leaf).WellFormed 0 :=
  hsound.node staging hstaging

theorem kindsFit_outlined (f : V → W) : DumpLine.KindsFit (map.outlined f) := by
  have hstaging : DumpLine.KindsFit ((map.stagingOutline f).map (·.2)) := by
    cases hstaged : map.staging with
    | none =>
        rw [stagingOutline, hstaged]
        trivial
    | some staging =>
        have hends : ∀ line ∈ ([] : List (DumpLine W)).head?,
            line.depth ≤ ([] : List Slot).length := by
          rintro line ⟨⟩
        have hfits : DumpLine.KindsFit
            (((Trie.leaf staging.leaf).outline f none 0 []).map (·.2) ++ []) :=
          Trie.kindsFit_outline (hsound.leaf_wellFormed hstaged) hends trivial
        rw [List.append_nil] at hfits
        rw [stagingOutline_of_staged f hstaged, List.map_cons]
        refine ⟨?_, hfits⟩
        rintro place? kind isTarget ⟨⟩
  have hdepth : ∀ line ∈ ((map.stagingOutline f).map (·.2)).head?, line.depth ≤ 0 := by
    unfold stagingOutline
    split
    · rintro line ⟨⟩
      exact le_rfl
    · rintro line ⟨⟩
  rw [outlined, List.map_append]
  cases hroot : map.root with
  | none =>
      rw [trieOutline, hroot]
      refine ⟨?_, hstaging⟩
      rintro place? kind isTarget ⟨⟩
  | some root =>
      rw [trieOutline_of_root f hroot]
      exact Trie.kindsFit_outline (hsound.root root hroot) hdepth hstaging

/-- The path of the staged block, and no other within reach, ends at the target. -/
theorem linked {staging : Staging V} (hstaging : map.staging = some staging) {root : Trie V}
    (hroot : map.root = some root) {address : Address} {leaf : Leaf V}
    (hreach : address.minLevel ≤ map.rootLevel)
    (hleaf : root.leafOn address map.rootLevel = some leaf) :
    staging.target.same leaf = true ↔ address.SamePath staging.block map.rootLevel := by
  obtain ⟨hblockReach, held, hheld, htarget⟩ := hsound.staged_path hstaging
  obtain rfl : root = held := Option.some.inj (hroot.symm.trans hheld)
  constructor
  · intro hsame
    rw [samePath_iff_block hreach hblockReach, hsound.block staging hstaging]
    have htrie : map.trieLeaves address = some leaf :=
      trieLeaves_eq_some_iff.mpr ⟨hreach, root, hroot, hleaf⟩
    exact hsound.once staging address leaf hstaging htrie (Leaf.same_iff.mp hsame).symm
  · intro hpath
    rw [Trie.leafOn_congr hpath, htarget] at hleaf
    cases hleaf
    exact staging.target.same_self

/-- One line is marked if there is a staged block, at the end of the block's path. -/
theorem targets_outlined (f : V → W) :
    DumpLine.targets (map.outlined f) =
      (map.staging.map fun staging => staging.block.slotPath map.rootLevel).toList := by
  have hstaged : (map.stagingOutline f).filter (fun line => line.2.isMarked) = [] := by
    cases hstaging : map.staging with
    | none =>
        rw [stagingOutline, hstaging]
        rfl
    | some staging =>
        rw [stagingOutline_of_staged f hstaging, List.filter_cons_of_neg Bool.false_ne_true]
        exact Trie.filter_outline_eq_nil (hsound.leaf_wellFormed hstaging) (Nat.zero_le _)
          fun _ _ _ _ => rfl
  -- The staging section marks no line, so the mark is the one within the trie.
  rw [DumpLine.targets, placed_outlined, List.filter_append, hstaged, List.append_nil]
  cases hstaging : map.staging with
  | none =>
      cases hroot : map.root with
      | none =>
          rw [trieOutline, hroot]
          rfl
      | some root =>
          rw [trieOutline_of_root f hroot, hstaging, Trie.filter_outline_eq_nil
            (hsound.root root hroot) hsound.level_le fun _ _ _ _ => rfl]
          rfl
  | some staging =>
      obtain ⟨hreach, root, hroot, hleaf⟩ := hsound.staged_path hstaging
      rw [trieOutline_of_root f hroot, hstaging]
      exact Trie.targets_outline (hsound.root root hroot) hsound.level_le hleaf
        fun address leaf hon hheld => (hsound.linked hstaging hroot hon hheld).mp

theorem slotPath_mem_targets_iff (f : V → W) {root : Trie V} (hroot : map.root = some root)
    {address : Address} {leaf : Leaf V} (hreach : address.minLevel ≤ map.rootLevel)
    (hleaf : root.leafOn address map.rootLevel = some leaf) :
    address.slotPath map.rootLevel ∈ DumpLine.targets (map.outlined f) ↔
      (Trie.leaf leaf).isTarget (map.staging.map Staging.target) = true := by
  rw [hsound.targets_outlined]
  cases hstaging : map.staging with
  | none => simp [Trie.isTarget]
  | some staging =>
      rw [Option.map_some, Option.toList_some, List.mem_singleton, slotPath_eq_iff]
      exact (hsound.linked hstaging hroot hreach hleaf).symm

theorem entries_outlined (f : V → W) :
    DumpLine.entries (map.outlined f) =
      map.addressed.map fun entry => (entry.1.toNat, f entry.2) := by
  obtain ⟨after, hplaced⟩ := map.placed_trieOutline f []
  rw [List.append_nil] at hplaced
  rw [DumpLine.entries, takeWhile_outlined, hplaced, DumpLine.placed, List.append_nil]
  cases hroot : map.root with
  | none =>
      rw [trieOutline, addressed, hroot]
      rfl
  | some root =>
      have hzero : DumpLine.number [] = (0 : Address).stem (map.rootLevel + 1) := by
        simp [DumpLine.number, stem]
      rw [trieOutline_of_root f hroot, hsound.addressed_eq_listing hroot]
      refine Trie.entries_outline (fun staging => map.stagedValues_outlined f)
        (hsound.root root hroot) hsound.level_le (aligned_zero _) hzero fun address leaf => ?_
      exact hsound.slotPath_mem_targets_iff f hroot

/-! ### The printed values -/

theorem exists_key_of_leaf {address : Address} {leaf : Leaf V} {slot : Slot} {held : V}
    (hleaf : map.leaves address = some leaf) (hheld : (slot, held) ∈ leaf.node.entries) :
    ∃ key, map.get? key = .ok (some held) := by
  have hleaves := hsound.leaves_wellFormed
  obtain ⟨member, hblock, hdigit⟩ := exists_member address slot
  refine ⟨member.toKey, ?_⟩
  rw [hsound.get?_eq]
  change Except.ok (map.leaves.find member) = _
  rw [Leaves.find_eq, hleaves.congr member address hblock, hleaf, hdigit]
  exact congrArg Except.ok ((hleaves.leaf address leaf hleaf).mem_entries.mp hheld)

/-- A value printed in the trie is a value of the map, or it stands below the target. -/
theorem held_of_printed_trie {path : List Slot} {depth : Nat} {slot : Slot} {held : V}
    (hline : (path, .value depth slot held) ∈ map.trieOutline id) :
    (∃ key, map.get? key = .ok (some held)) ∨
      ∃ staging slot, map.staging = some staging ∧ (slot, held) ∈ staging.target.node.entries := by
  cases hroot : map.root with
  | none =>
      rw [trieOutline, hroot, List.mem_singleton] at hline
      cases hline
  | some root =>
      rw [trieOutline_of_root id hroot] at hline
      obtain ⟨address, leaf, value, hreach, hleaf, hvalue, rfl⟩ :=
        Trie.exists_leaf_of_mem_outline (hsound.root root hroot) hsound.level_le hline
      have hon : map.trieLeaves address = some leaf :=
        trieLeaves_eq_some_iff.mpr ⟨hreach, root, hroot, hleaf⟩
      cases hstaging : map.staging with
      | none => exact Or.inl (hsound.exists_key_of_leaf (leaves_of_unstaged hstaging ▸ hon) hvalue)
      | some staging =>
          have hblock := hsound.block staging hstaging
          by_cases heq : address.block = staging.block
          · rw [hsound.trieLeaves_wellFormed.congr _ _ (heq.trans hblock.symm),
              hsound.target staging hstaging] at hon
            cases hon
            exact Or.inr ⟨staging, _, rfl, hvalue⟩
          · rw [← hblock] at heq
            have hleaf : map.leaves address = some leaf := by
              rw [leaves_of_staged hstaging, Leaves.update_of_block_ne heq, hon]
            exact Or.inl (hsound.exists_key_of_leaf hleaf hvalue)

theorem held_of_printed_staging {path : List Slot} {depth : Nat} {slot : Slot} {held : V}
    (hline : (path, .value depth slot held) ∈ map.stagingOutline id) :
    ∃ key, map.get? key = .ok (some held) := by
  cases hstaging : map.staging with
  | none =>
      rw [stagingOutline, hstaging] at hline
      cases hline
  | some staging =>
      rw [stagingOutline_of_staged id hstaging, List.mem_cons] at hline
      obtain htitle | hline := hline
      · cases htitle
      · obtain ⟨address, leaf, value, -, hleaf, hvalue, rfl⟩ :=
          Trie.exists_leaf_of_mem_outline (hsound.leaf_wellFormed hstaging) (Nat.zero_le _) hline
        cases hleaf
        exact hsound.exists_key_of_leaf (leaves_staged hstaging) hvalue

theorem held_of_printed {depth : Nat} {slot : Slot} {held : V}
    (hmem : .value depth slot held ∈ map.outlined id) :
    (∃ key, map.get? key = .ok (some held)) ∨
      ∃ staging slot, map.staging = some staging ∧
        (slot, held) ∈ staging.target.node.entries := by
  rw [outlined, List.map_append, List.mem_append] at hmem
  obtain htrie | hsection := hmem
  · obtain ⟨⟨path, line⟩, hline, rfl⟩ := List.mem_map.mp htrie
    exact hsound.held_of_printed_trie hline
  · obtain ⟨⟨path, line⟩, hline, rfl⟩ := List.mem_map.mp hsection
    exact Or.inl (hsound.held_of_printed_staging hline)

end Sound

/-- The key and the integer that a value line tells by the slots on the way to it and by its text. -/
def readPair? (shown : Nat × List Char) : Option (Int32 × Int) :=
  match Json.integer? shown.2 with
  | some (held, []) => some ((UInt32.ofNat shown.1).toInt32, held)
  | _ => none

theorem readPair?_signed (key : Int32) (held : Int) :
    readPair? ((ofKey key).toNat, Numeral.signed held) = some (key, held) := by
  have hread := Json.integer?_signed .nil held
  rw [List.append_nil] at hread
  rw [readPair?, hread, ofKey, UInt32.ofNat_toNat, Int32.toInt32_toUInt32]

/-- What the text of a dump tells of a map of integers. -/
structure Depicted (map : IntMap V) (integer : V → Int) (text : String)
    (lines : List (DumpLine (List Char))) (entries : List (Int32 × V)) : Prop where
  read : DumpLine.readAll? text = some lines
  /-- Every node has the kind for the number of lines directly below it. -/
  kinds : DumpLine.KindsFit lines
  titled : .stagingTitle ∈ lines ↔ map.staging.isSome = true
  /-- One line has the mark of the target if there is a staging section, and none otherwise. -/
  marked : (DumpLine.targets lines).length = if .stagingTitle ∈ lines then 1 else 0
  /-- The marked line stands at the path of the staged block. -/
  target : ∀ staging, map.staging = some staging →
    DumpLine.targets lines = [staging.block.slotPath map.rootLevel]
  listed : map.entries = .ok entries
  shown : (DumpLine.entries lines).mapM readPair? =
    some (entries.map fun entry => (entry.1, integer entry.2))
  empty : map.size = 0 → text = "empty\n"

/-- **The dump determines the content.** If every value of the map is written as an integer and no
value below the target has a line feed in it, the text alone tells the entries of the map, in their
order, and has the form of its trie. -/
theorem reachable_tree (hmap : map.Reachable) {display : V → String} {integer : V → Int}
    (hintegers : ∀ key held, map.get? key = .ok (some held) →
      display held = String.ofList (Numeral.signed (integer held)))
    (hstale : ∀ staging slot held, map.staging = some staging →
      (slot, held) ∈ staging.target.node.entries → '\n' ∉ (display held).toList) :
    ∃ text lines entries, map.tree display = .ok text ∧ map.Depicted integer text lines entries := by
  have hsound := hmap.sound
  have hdump := hsound.dump_eq
  have hlines : ∀ depth slot held, .value depth slot held ∈ map.outlined id →
      '\n' ∉ (display held).toList := by
    intro depth slot held hmem
    obtain ⟨key, hkey⟩ | ⟨staging, other, hstaging, hheld⟩ := hsound.held_of_printed hmem
    · rw [hintegers key held hkey, String.toList_ofList]
      exact Numeral.newline_notMem_signed _
    · exact hstale staging other held hstaging hheld
  refine ⟨_, map.outlined fun held => (display held).toList, map.keyed, by rw [tree, hdump]; rfl, {
    read := (DumpLine.readAll?_text hlines).trans (congrArg some (map.outlined_map _))
    kinds := hsound.kindsFit_outlined _
    titled := map.title_mem_outlined_iff _
    marked := by
      rw [hsound.targets_outlined, if_congr (map.title_mem_outlined_iff _) rfl rfl]
      cases map.staging <;> rfl
    target := fun staging hstaging => by
      rw [hsound.targets_outlined, hstaging]
      rfl
    listed := hsound.entries_eq
    shown := by
      have hread : ∀ entry ∈ map.keyed,
          readPair? ((ofKey entry.1).toNat, (display entry.2).toList) =
            some (entry.1, integer entry.2) := by
        intro entry hmem
        have hget : map.get? entry.1 = .ok (some entry.2) := by
          rw [hsound.get?_eq, hsound.mem_keyed.mp hmem]
        rw [hintegers _ _ hget, String.toList_ofList, readPair?_signed]
      have hshown : DumpLine.entries (map.outlined fun held => (display held).toList) =
          map.keyed.map fun entry => ((ofKey entry.1).toNat, (display entry.2).toList) := by
        rw [hsound.entries_outlined, keyed, List.map_map]
        rfl
      rw [hshown, List.mapM_map]
      exact Checked.mapM_eq_pure hread
    empty := fun hsize => by
      rw [hsound.empty_of_root (hsound.root_eq_none_iff.mpr hsize)]
      change String.join ["empty" ++ "\n"] = "empty\n"
      decide }⟩

/-- A map of negative and other integers with a write to the staged block that its trie lacks. -/
theorem tree_of_diverged :
    let display (value : Int) : String := String.ofList (Numeral.signed value)
    let target : Leaf Int := ⟨1, .one 6 (-7)⟩
    let root : Trie Int := .branch (.bitmap 5 [.leaf ⟨0, .one 3 0⟩, .leaf target])
    let map : IntMap Int := ⟨3, 1, some root, some ⟨95, target, ⟨2, .bitmap 192 [-7, 12]⟩⟩, 3⟩
    let shown := "BitmapNode\n     0: OneNode\n         3: value=0\n     2: OneNode (target)\n" ++
      "         6: value=-7\n--------------- staging\nBitmapNode\n     6: value=-7\n     7: value=12\n"
    map.Reachable ∧ map.tree display = .ok shown ∧
      ∃ text lines entries, map.tree display = .ok text ∧ map.Depicted id text lines entries := by
  intro display target root map shown
  have hmap : map.Reachable :=
    .step (.insert 71 12) (.step (.ofList [(3, 0), (70, -7)]) .empty rfl) rfl
  refine ⟨hmap, by decide +kernel, reachable_tree hmap (fun _ _ _ => rfl) ?_⟩
  intro staging slot held _ _
  rw [String.toList_ofList]
  exact Numeral.newline_notMem_signed held

/-- A stale value with line feeds in it can look like lines of the dump: here a map of two integers has
the dump of a map of three. -/
theorem tree_of_line_feeds :
    let written : Datum := .text "0\n     3: OneNode\n         6: value=9"
    let target : Leaf Datum := ⟨1, .one 6 written⟩
    let root : Trie Datum := .branch (.bitmap 5 [.leaf ⟨0, .one 3 (.integer 0)⟩, .leaf target])
    let map : IntMap Datum := ⟨2, 1, some root, some ⟨95, target, ⟨2, .one 6 (.integer 5)⟩⟩, 3⟩
    let otherTarget : Leaf Datum := ⟨2, .one 6 (.integer 0)⟩
    let otherRoot : Trie Datum := .branch (.bitmap 13
      [.leaf ⟨0, .one 3 (.integer 0)⟩, .leaf otherTarget, .leaf ⟨1, .one 6 (.integer 9)⟩])
    let other : IntMap Datum :=
      ⟨3, 1, some otherRoot, some ⟨95, otherTarget, ⟨3, .one 6 (.integer 5)⟩⟩, 4⟩
    let shown := "BitmapNode\n     0: OneNode\n         3: value=0\n     2: OneNode (target)\n" ++
      "         6: value=0\n     3: OneNode\n         6: value=9\n" ++
      "--------------- staging\nOneNode\n     6: value=5\n"
    map.Reachable ∧ map.entries = .ok [(3, .integer 0), (70, .integer 5)] ∧
      other.Reachable ∧
      other.entries = .ok [(3, .integer 0), (70, .integer 5), (102, .integer 9)] ∧
      map.tree Datum.display = .ok shown ∧ other.tree Datum.display = .ok shown ∧
      ∀ integer lines entries, ¬ map.Depicted integer shown lines entries := by
  intro written target root map otherTarget otherRoot other shown
  have hmap : map.Reachable :=
    .step (.insert 70 (.integer 5)) (.step (.insert 70 written) (.step (.insert 3 (.integer 0))
      .empty rfl) rfl) rfl
  have hother : other.Reachable :=
    .step (.insert 70 (.integer 5)) (.step (.insert 70 (.integer 0)) (.step (.insert 102 (.integer 9))
      (.step (.insert 3 (.integer 0)) .empty rfl) rfl) rfl) rfl
  have hentries : map.entries = .ok [(3, .integer 0), (70, .integer 5)] := by decide
  have hread : (DumpLine.readAll? shown).bind (fun lines => (DumpLine.entries lines).mapM readPair?) =
      some [(3, 0), (70, 5), (102, 9)] := by
    decide +kernel
  refine ⟨hmap, hentries, hother, by decide, by decide +kernel, by decide +kernel, ?_⟩
  intro integer lines entries hdepicted
  cases hentries.symm.trans hdepicted.listed
  rw [hdepicted.read, Option.bind_some, hdepicted.shown] at hread
  simp at hread

end IntMap

end RadixMap
