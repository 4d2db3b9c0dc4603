import Mathlib
import RadixMap.Proofs.DumpOutline
import RadixMap.Proofs.DumpReading
import RadixMap.Proofs.Traversal

/-!
# The lines of a trie

A trie is printed node by node, each before its children. Read as an outline, its lines have the slots
of the trie: below each node stand as many lines as it has elements, the target is marked wherever it
is linked, and the values stand at the addresses that a traversal gives them. A map is printed as its
trie and then its staging section.
-/

namespace RadixMap

open Address

variable {V W : Type}

namespace Address

/-- The slots through which an address passes from a level down to its leaf. -/
def slotPath (address : Address) : Nat → List Slot
  | 0 => []
  | level + 1 => address.digit (level + 1) :: slotPath address level

theorem slotPath_eq_iff {left right : Address} {level : Nat} :
    left.slotPath level = right.slotPath level ↔ left.SamePath right level := by
  induction level with
  | zero => exact iff_of_true rfl trivial
  | succ level ih => rw [slotPath, slotPath, List.cons.injEq, ih, SamePath]

end Address

namespace DumpLine

/-- Where the line of a node stands to which the slots lead. -/
def placeOf (slots : List Slot) : Option (Nat × Slot) :=
  slots.getLast?.map fun slot => (slots.length, slot)

theorem placeOf_append (slots : List Slot) (slot : Slot) :
    placeOf (slots ++ [slot]) = some (slots.length + 1, slot) := by
  simp [placeOf]

theorem depth_node (slots : List Slot) (kind : NodeKind) (isTarget : Bool) :
    (node (placeOf slots) kind isTarget : DumpLine W).depth = slots.length := by
  rcases List.eq_nil_or_concat slots with rfl | ⟨init, slot, rfl⟩
  · rfl
  · rw [List.concat_eq_append, placeOf_append, List.length_append]
    rfl

/-- Lines below the line that the slots lead to are placed as given, whatever comes after them. -/
def Tours (slots : List Slot) (lines : List (List Slot × DumpLine W)) : Prop :=
  ∀ before rest, before.take slots.length = slots →
    ∃ after, after.take slots.length = slots ∧
      placed before (lines.map (·.2) ++ rest) = lines ++ placed after rest

theorem tours_nil (slots : List Slot) : Tours slots ([] : List (List Slot × DumpLine W)) :=
  fun before _ hbefore => ⟨before, hbefore, rfl⟩

theorem Tours.append {slots : List Slot} {lines others : List (List Slot × DumpLine W)}
    (hlines : Tours slots lines) (hothers : Tours slots others) : Tours slots (lines ++ others) := by
  intro before rest hbefore
  obtain ⟨between, hbetween, hfirst⟩ := hlines before (others.map (·.2) ++ rest) hbefore
  obtain ⟨after, hafter, hsecond⟩ := hothers between rest hbetween
  refine ⟨after, hafter, ?_⟩
  rw [List.map_append, List.append_assoc, hfirst, hsecond, List.append_assoc]

theorem tours_flatMap {α : Type} {slots : List Slot} {items : List α}
    {lines : α → List (List Slot × DumpLine W)} (hlines : ∀ item ∈ items, Tours slots (lines item)) :
    Tours slots (items.flatMap lines) := by
  induction items with
  | nil => exact tours_nil slots
  | cons item items ih =>
      rw [List.flatMap_cons]
      exact (hlines item List.mem_cons_self).append
        (ih fun other hmem => hlines other (List.mem_cons_of_mem item hmem))

theorem tours_values (slots : List Slot) (entries : List (Slot × W)) :
    Tours slots (entries.map fun entry =>
      (slots ++ [entry.1], value (slots.length + 1) entry.1 entry.2)) := by
  rw [List.map_eq_flatMap]
  refine tours_flatMap fun entry _ before rest hbefore => ?_
  refine ⟨slots ++ [entry.1], List.take_left, ?_⟩
  simp [placed, path, hbefore]

theorem Tours.cons_node {slots : List Slot} {slot : Slot} {lines : List (List Slot × DumpLine W)}
    (hlines : Tours (slots ++ [slot]) lines) (kind : NodeKind) (isTarget : Bool) :
    Tours slots ((slots ++ [slot], node (placeOf (slots ++ [slot])) kind isTarget) :: lines) := by
  intro before rest hbefore
  obtain ⟨after, hafter, hplaced⟩ := hlines (slots ++ [slot]) rest (List.take_length)
  refine ⟨after, ?_, ?_⟩
  · have htake := congrArg (List.take slots.length) hafter
    rwa [List.take_take, List.take_left, List.length_append, min_eq_left (Nat.le_add_right _ _)] at htake
  · have hpath : (node (placeOf (slots ++ [slot])) kind isTarget : DumpLine W).path before =
        slots ++ [slot] := by
      rw [placeOf_append, path, Nat.add_sub_cancel, hbefore]
    rw [List.map_cons, List.cons_append, placed, hpath, hplaced, List.cons_append]

end DumpLine

/-- What only one slot of a node contributes to is what its element contributes. -/
theorem Node.WellFormed.flatMap_entries {E α : Type} {node : Node E} (hnode : node.WellFormed)
    {slot : Slot} {element : E} (hfind : node.find slot = some element) {parts : Slot × E → List α}
    (hothers : ∀ entry ∈ node.entries, entry.1 ≠ slot → parts entry = []) :
    node.entries.flatMap parts = parts (slot, element) := by
  have hsorted := hnode.stores.pairwise_entries
  obtain ⟨before, after, hentries⟩ := List.append_of_mem (hnode.mem_entries.mpr hfind)
  rw [hentries, List.pairwise_append, List.pairwise_cons] at hsorted
  obtain ⟨-, ⟨hafter, -⟩, hbefore⟩ := hsorted
  have hfirst : before.flatMap parts = [] := by
    rw [List.flatMap_eq_nil_iff]
    intro entry hmem
    apply hothers entry (hentries ▸ List.mem_append_left _ hmem)
    exact (hbefore entry hmem _ List.mem_cons_self).ne
  have hlast : after.flatMap parts = [] := by
    rw [List.flatMap_eq_nil_iff]
    intro entry hmem
    apply hothers entry (hentries ▸ List.mem_append_right _ (List.mem_cons_of_mem _ hmem))
    exact (hafter entry hmem).ne'
  rw [hentries, List.flatMap_append, List.flatMap_cons, hfirst, hlast, List.nil_append,
    List.append_nil]

open DumpLine (Tours placeOf placeOf_append tours_flatMap tours_nil tours_values)

namespace Trie

/-- The lines of a trie that the slots lead to, with the slots on the way to each, first the line of
its node. -/
def outline (f : V → W) (target? : Option (Leaf V)) :
    Nat → List Slot → Trie V → List (List Slot × DumpLine W)
  | _, slots, leaf held =>
    (slots, .node (placeOf slots) held.node.kind ((leaf held).isTarget target?)) ::
      held.node.entries.map fun entry =>
        (slots ++ [entry.1], .value (slots.length + 1) entry.1 (f entry.2))
  | 0, slots, branch node => [(slots, .node (placeOf slots) node.kind false)]
  | level + 1, slots, branch node =>
    (slots, .node (placeOf slots) node.kind false) ::
      node.entries.flatMap fun entry =>
        outline f target? level (slots ++ [entry.1]) entry.2

section Outline

variable {f : V → W} {target? : Option (Leaf V)} {level : Nat} {slots : List Slot} {trie : Trie V}

theorem outline_eq_cons (f : V → W) (target? : Option (Leaf V)) (level : Nat)
    (slots : List Slot) (trie : Trie V) :
    trie.outline f target? level slots =
      (slots, .node (placeOf slots) trie.kind (trie.isTarget target?)) ::
        (trie.outline f target? level slots).tail := by
  cases trie with
  | leaf node => cases level <;> rfl
  | branch node => cases level <;> rfl

theorem outline_map (f : V → W) (target? : Option (Leaf V)) (level : Nat)
    (slots : List Slot) (trie : Trie V) :
    trie.outline f target? level slots =
      (trie.outline id target? level slots).map (Prod.map id (DumpLine.map f)) := by
  induction level generalizing trie slots with
  | zero =>
      cases trie with
      | leaf node => simp [outline, DumpLine.map]
      | branch node => rfl
  | succ level ih =>
      cases trie with
      | leaf node => simp [outline, DumpLine.map]
      | branch node =>
          have hchildren : ∀ entry : Slot × Trie V,
              entry.2.outline f target? level (slots ++ [entry.1]) =
                (entry.2.outline id target? level
                  (slots ++ [entry.1])).map (Prod.map id (DumpLine.map f)) :=
            fun entry => ih _ _
          rw [outline, outline, List.map_cons, List.map_flatMap]
          simp only [hchildren]
          rfl

theorem dump_eq (target? : Option (Leaf V)) (slots : List Slot) (hwf : trie.WellFormed level) :
    trie.dump target? level (slots.length + 1) =
      .ok ((trie.outline id target? level slots).tail.map (·.2)) := by
  induction level generalizing trie slots with
  | zero =>
      obtain ⟨held, rfl, -⟩ := hwf.eq_leaf
      rw [dump, outline, List.tail_cons, List.map_map]
      rfl
  | succ level ih =>
      obtain ⟨node, rfl, hnode, hfits⟩ := hwf.eq_branch
      have hparts : ∀ entry ∈ node.entries,
          (do
            let lines ← dump target? level (slots.length + 1 + 1) entry.2
            return .node (some (slots.length + 1, entry.1)) entry.2.kind
              (entry.2.isTarget target?) :: lines) =
            (.ok ((entry.2.outline id target? level
              (slots ++ [entry.1])).map (·.2)) : Checked _) := by
        intro entry hmem
        have hlines := ih (slots ++ [entry.1]) (hfits.2 _ _ (hnode.mem_entries.mp hmem))
        rw [List.length_append, List.length_singleton] at hlines
        rw [hlines, outline_eq_cons, placeOf_append]
        rfl
      rw [dump, outline, List.tail_cons, List.map_flatMap]
      change (node.entries.mapM _ >>= _) = _
      rw [Checked.mapM_eq_ok hparts, Checked.ok_bind, Checked.pure_eq, List.flatMap]

theorem tours_outline (f : V → W) (target? : Option (Leaf V)) (level : Nat)
    (slots : List Slot) (trie : Trie V) :
    Tours slots (trie.outline f target? level slots).tail := by
  have hleaf : ∀ (slots : List Slot) (node : Node V), Tours slots (node.entries.map fun entry =>
      (slots ++ [entry.1], DumpLine.value (slots.length + 1) entry.1 (f entry.2))) := by
    intro slots node
    have hvalues := tours_values slots (node.entries.map (Prod.map id f))
    rwa [List.map_map] at hvalues
  induction level generalizing trie slots with
  | zero =>
      cases trie with
      | leaf held => exact hleaf slots held.node
      | branch node => exact tours_nil slots
  | succ level ih =>
      cases trie with
      | leaf held => exact hleaf slots held.node
      | branch node =>
          rw [outline, List.tail_cons]
          refine tours_flatMap fun entry _ => ?_
          rw [outline_eq_cons]
          exact (ih _ _).cons_node _ _

/-- From wherever the outline of a root is read, its lines are placed as given. -/
theorem placed_outline (f : V → W) (target? : Option (Leaf V)) (level : Nat)
    (trie : Trie V) (before : List Slot) (rest : List (DumpLine W)) :
    ∃ after, DumpLine.placed before ((trie.outline f target? level []).map (·.2) ++ rest) =
      trie.outline f target? level [] ++ DumpLine.placed after rest := by
  obtain ⟨after, -, hplaced⟩ := tours_outline f target? level [] trie [] rest rfl
  refine ⟨after, ?_⟩
  rw [outline_eq_cons, List.map_cons, List.cons_append, DumpLine.placed, List.cons_append]
  exact congrArg _ hplaced

/-- A line below the first stands on a longer path, as a value or as a node. -/
theorem mem_tail_outline {line : List Slot × DumpLine W}
    (hmem : line ∈ (trie.outline f target? level slots).tail) :
    ∃ below slot,
      (∃ held, line = (slots ++ below ++ [slot], .value ((slots ++ below).length + 1) slot held)) ∨
        ∃ kind isTarget, line =
          (slots ++ below ++ [slot], .node (placeOf (slots ++ below ++ [slot])) kind isTarget) := by
  have hleaf : ∀ (slots : List Slot) (node : Node V), line ∈ node.entries.map (fun entry =>
      (slots ++ [entry.1], DumpLine.value (slots.length + 1) entry.1 (f entry.2))) →
        ∃ slot held, line = (slots ++ [] ++ [slot], .value ((slots ++ []).length + 1) slot held) := by
    intro slots node hvalue
    obtain ⟨entry, -, rfl⟩ := List.mem_map.mp hvalue
    exact ⟨entry.1, f entry.2, by rw [List.append_nil]⟩
  induction level generalizing trie slots with
  | zero =>
      cases trie with
      | leaf held =>
          obtain ⟨slot, value, hline⟩ := hleaf slots held.node hmem
          exact ⟨[], slot, Or.inl ⟨value, hline⟩⟩
      | branch node => cases hmem
  | succ level ih =>
      cases trie with
      | leaf held =>
          obtain ⟨slot, value, hline⟩ := hleaf slots held.node hmem
          exact ⟨[], slot, Or.inl ⟨value, hline⟩⟩
      | branch node =>
          rw [outline, List.tail_cons] at hmem
          obtain ⟨entry, -, hline⟩ := List.mem_flatMap.mp hmem
          rw [outline_eq_cons, List.mem_cons] at hline
          rcases hline with rfl | hbelow
          · exact ⟨[], entry.1, Or.inr ⟨_, _, by rw [List.append_nil]⟩⟩
          · obtain ⟨below, slot, hform⟩ := ih hbelow
            rw [List.append_assoc slots, List.singleton_append] at hform
            exact ⟨entry.1 :: below, slot, hform⟩

theorem isTitle_outline {line : List Slot × DumpLine W}
    (hmem : line ∈ trie.outline f target? level slots) : line.2.isTitle = false := by
  rw [outline_eq_cons, List.mem_cons] at hmem
  rcases hmem with rfl | hbelow
  · rfl
  · obtain ⟨below, slot, ⟨held, rfl⟩ | ⟨kind, isTarget, rfl⟩⟩ := mem_tail_outline hbelow
    · rfl
    · rfl

/-! ### The lines below a node -/

theorem lt_depth_outline {line : List Slot × DumpLine W}
    (hmem : line ∈ (trie.outline f target? level slots).tail) : slots.length < line.2.depth := by
  have hlt : ∀ below : List Slot, slots.length < (slots ++ below).length + 1 := by
    intro below
    rw [List.length_append]
    omega
  obtain ⟨below, slot, ⟨held, rfl⟩ | ⟨kind, isTarget, rfl⟩⟩ := mem_tail_outline hmem
  · exact hlt below
  · rw [DumpLine.depth_node, List.length_append]
    exact hlt below

def arity : Trie V → Nat
  | leaf held => held.node.entries.length
  | branch node => node.entries.length

theorem WellFormed.kind_fits (hwf : trie.WellFormed level) : trie.kind.Fits trie.arity := by
  have hnode : ∀ {E : Type} {node : Node E}, node.WellFormed → node.kind.Fits node.entries.length := by
    intro E node hnode
    have hfits := hnode.stores.fits
    rwa [← Table.length_elements, ← Table.map_snd_entries, List.length_map,
      ← hnode.stores.entries_eq] at hfits
  cases level with
  | zero =>
      obtain ⟨held, rfl, hheld⟩ := hwf.eq_leaf
      exact hnode hheld
  | succ level =>
      obtain ⟨node, rfl, hbranch, -⟩ := hwf.eq_branch
      exact hnode hbranch

theorem countP_outline (f : V → W) (target? : Option (Leaf V)) (level : Nat)
    (slots : List Slot) (slot : Slot) (trie : Trie V) :
    ((trie.outline f target? level (slots ++ [slot])).map (·.2)).countP
      (fun line => line.depth = slots.length + 1) = 1 := by
  have hbelow : ((trie.outline f target? level (slots ++ [slot])).tail.map (·.2)).countP
      (fun line => line.depth = slots.length + 1) = 0 := by
    rw [List.countP_eq_zero]
    intro line hmem
    obtain ⟨line, hline, rfl⟩ := List.mem_map.mp hmem
    have hlt := lt_depth_outline hline
    rw [List.length_append, List.length_singleton] at hlt
    simpa using hlt.ne'
  rw [outline_eq_cons, List.map_cons, List.countP_cons_of_pos, hbelow]
  rw [DumpLine.depth_node, List.length_append]
  exact decide_eq_true rfl

theorem countBelow_outline (hwf : trie.WellFormed level) {rest : List (DumpLine W)}
    (hrest : ∀ line ∈ rest.head?, line.depth ≤ slots.length) :
    DumpLine.countBelow slots.length
      ((trie.outline f target? level slots).tail.map (·.2) ++ rest) = trie.arity := by
  have hbelow : ∀ line ∈ (trie.outline f target? level slots).tail.map (·.2),
      decide (slots.length < line.depth) = true := by
    intro line hmem
    obtain ⟨line, hline, rfl⟩ := List.mem_map.mp hmem
    exact decide_eq_true (lt_depth_outline hline)
  have hends : rest.takeWhile (fun line => slots.length < line.depth) = [] := by
    cases rest with
    | nil => rfl
    | cons line rest => exact List.takeWhile_cons_of_neg (by simpa using hrest line rfl)
  rw [DumpLine.countBelow, List.takeWhile_append_of_pos hbelow, hends, List.append_nil]
  cases level with
  | zero =>
      obtain ⟨held, rfl, -⟩ := hwf.eq_leaf
      rw [outline, List.tail_cons, List.map_map, List.countP_map, arity, List.countP_eq_length]
      exact fun entry _ => decide_eq_true rfl
  | succ level =>
      obtain ⟨node, rfl, -⟩ := hwf.eq_branch
      rw [outline, List.tail_cons, List.map_flatMap, List.countP_flatMap, arity]
      simp only [Function.comp_def, countP_outline]
      simp

theorem kindsFit_cons (hwf : trie.WellFormed level) {rest : List (DumpLine W)}
    (hrest : ∀ line ∈ rest.head?, line.depth ≤ slots.length)
    (hbelow : DumpLine.KindsFit ((trie.outline f target? level slots).tail.map (·.2) ++ rest)) :
    DumpLine.KindsFit ((trie.outline f target? level slots).map (·.2) ++ rest) := by
  rw [outline_eq_cons, List.map_cons, List.cons_append]
  refine ⟨?_, hbelow⟩
  rintro place? kind isTarget heq
  cases heq
  rw [DumpLine.depth_node, countBelow_outline hwf hrest]
  exact hwf.kind_fits

theorem kindsFit_outline (hwf : trie.WellFormed level) {rest : List (DumpLine W)}
    (hdepth : ∀ line ∈ rest.head?, line.depth ≤ slots.length) (hrest : DumpLine.KindsFit rest) :
    DumpLine.KindsFit ((trie.outline f target? level slots).map (·.2) ++ rest) := by
  induction level generalizing trie slots rest with
  | zero =>
      refine kindsFit_cons hwf hdepth ?_
      obtain ⟨held, rfl, -⟩ := hwf.eq_leaf
      rw [outline, List.tail_cons, List.map_map]
      induction held.node.entries with
      | nil => exact hrest
      | cons entry entries ih =>
          refine ⟨?_, ih⟩
          rintro place? kind isTarget ⟨⟩
  | succ level ih =>
      refine kindsFit_cons hwf hdepth ?_
      obtain ⟨node, rfl, hnode, hfits⟩ := hwf.eq_branch
      have hchildren : ∀ entry ∈ node.entries, entry.2.WellFormed level :=
        fun entry hmem => hfits.2 _ _ (hnode.mem_entries.mp hmem)
      rw [outline, List.tail_cons]
      clear hwf hnode hfits
      generalize node.entries = entries at hchildren ⊢
      induction entries with
      | nil => exact hrest
      | cons entry entries ihEntries =>
          rw [List.flatMap_cons, List.map_append, List.append_assoc]
          refine ih (hchildren entry List.mem_cons_self) ?_
            (ihEntries fun other hmem => hchildren other (List.mem_cons_of_mem entry hmem))
          -- After a child comes the line of the next one, which is no deeper, or what follows the trie.
          rw [List.length_append]
          cases entries with
          | nil => exact fun line hline => Nat.le_succ_of_le (hdepth line hline)
          | cons next others =>
              rw [List.flatMap_cons, outline_eq_cons]
              rintro line ⟨⟩
              rw [DumpLine.depth_node, List.length_append]
              exact le_rfl

/-! ### The mark of the target -/

theorem isMarked_outline (hwf : trie.WellFormed level) (hlevel : level ≤ maxLevel)
    (habsent : ∀ address leaf, address.minLevel ≤ level → trie.leafOn address level = some leaf →
      (Trie.leaf leaf).isTarget target? = false)
    {line : List Slot × DumpLine W} (hmem : line ∈ trie.outline f target? level slots) :
    line.2.isMarked = false := by
  induction level generalizing trie slots with
  | zero =>
      obtain ⟨held, rfl, -⟩ := hwf.eq_leaf
      rw [outline, List.mem_cons] at hmem
      rcases hmem with rfl | hvalue
      · exact habsent 0 held (by decide) rfl
      · obtain ⟨entry, -, rfl⟩ := List.mem_map.mp hvalue
        rfl
  | succ level ih =>
      obtain ⟨node, rfl, hnode, hfits⟩ := hwf.eq_branch
      rw [outline, List.mem_cons] at hmem
      rcases hmem with rfl | hbelow
      · rfl
      · obtain ⟨⟨slot, child⟩, hentry, hline⟩ := List.mem_flatMap.mp hbelow
        have hfind := hnode.mem_entries.mp hentry
        refine ih (hfits.2 _ _ hfind) (by omega) ?_ hline
        intro address leaf hreach hleaf
        obtain ⟨longer, hlonger, -, -, hsame⟩ := hwf.exists_address hlevel hfind hreach
        exact habsent longer leaf hlonger (hsame.trans hleaf)

theorem filter_outline_eq_nil (hwf : trie.WellFormed level) (hlevel : level ≤ maxLevel)
    (habsent : ∀ address leaf, address.minLevel ≤ level → trie.leafOn address level = some leaf →
      (Trie.leaf leaf).isTarget target? = false) :
    (trie.outline f target? level slots).filter (fun line => line.2.isMarked) = [] := by
  rw [List.filter_eq_nil_iff]
  intro line hmem
  rw [isMarked_outline hwf hlevel habsent hmem]
  exact Bool.false_ne_true

/-- If one path and no other ends at the target, one line is marked, at the end of that path. -/
theorem targets_outline {block : Address} {target : Leaf V} (hwf : trie.WellFormed level)
    (hlevel : level ≤ maxLevel) (htarget : trie.leafOn block level = some target)
    (honce : ∀ address leaf, address.minLevel ≤ level → trie.leafOn address level = some leaf →
      target.same leaf = true → address.SamePath block level) :
    ((trie.outline f (some target) level slots).filter fun line => line.2.isMarked).map (·.1) =
      [slots ++ block.slotPath level] := by
  induction level generalizing trie slots with
  | zero =>
      obtain ⟨held, rfl, -⟩ := hwf.eq_leaf
      cases htarget
      have hvalues : (target.node.entries.map fun entry =>
          (slots ++ [entry.1], DumpLine.value (slots.length + 1) entry.1 (f entry.2))).filter
            (fun line => line.2.isMarked) = [] := by
        rw [List.filter_eq_nil_iff]
        intro line hmem
        obtain ⟨entry, -, rfl⟩ := List.mem_map.mp hmem
        exact Bool.false_ne_true
      have hmarked : (leaf target).isTarget (some target) = true := target.same_self
      rw [outline, hmarked, List.filter_cons_of_pos rfl, hvalues, slotPath, List.append_nil]
      rfl
  | succ level ih =>
      obtain ⟨node, rfl, hnode, hfits⟩ := hwf.eq_branch
      cases hfind : node.find (block.digit (level + 1)) with
      | none =>
          rw [leafOn_branch_of_free hfind] at htarget
          cases htarget
      | some child =>
          rw [leafOn_branch_of_find hfind] at htarget
          -- Only the child on the path contributes: no path through another one ends at the target.
          have hothers : ∀ entry ∈ node.entries, entry.1 ≠ block.digit (level + 1) →
              (entry.2.outline f (some target) level (slots ++ [entry.1])).filter
                (fun line => line.2.isMarked) = [] := by
            intro entry hmem hne
            have hother := hnode.mem_entries.mp hmem
            refine filter_outline_eq_nil (hfits.2 _ _ hother) (by omega) ?_
            intro address leaf hreach hleaf
            obtain ⟨longer, hlonger, hdigit, -, hsame⟩ := hwf.exists_address hlevel hother hreach
            rw [← Bool.not_eq_true]
            intro hmarked
            have hpath := honce longer leaf hlonger (hsame.trans hleaf) hmarked
            exact hne (hdigit.symm.trans hpath.1)
          have hchild : ∀ address leaf, address.minLevel ≤ level →
              child.leafOn address level = some leaf → target.same leaf = true →
                address.SamePath block level := by
            intro address leaf hreach hleaf hmarked
            obtain ⟨longer, hlonger, -, hpath, hsame⟩ := hwf.exists_address hlevel hfind hreach
            have hblock := honce longer leaf hlonger (hsame.trans hleaf) hmarked
            rw [← slotPath_eq_iff] at hpath ⊢
            exact hpath.symm.trans (slotPath_eq_iff.mpr hblock.2)
          rw [outline, List.filter_cons_of_neg Bool.false_ne_true, List.filter_flatMap,
            hnode.flatMap_entries hfind hothers, ih (hfits.2 _ _ hfind) (by omega) htarget hchild,
            slotPath, List.append_assoc, List.singleton_append]

/-! ### The values -/

theorem exists_leaf_of_mem_outline (hwf : trie.WellFormed level) (hlevel : level ≤ maxLevel)
    {path : List Slot} {depth : Nat} {slot : Slot} {shown : W}
    (hmem : (path, .value depth slot shown) ∈ trie.outline f target? level slots) :
    ∃ address leaf held, address.minLevel ≤ level ∧ trie.leafOn address level = some leaf ∧
      (slot, held) ∈ leaf.node.entries ∧ f held = shown := by
  induction level generalizing trie slots with
  | zero =>
      obtain ⟨leaf, rfl, -⟩ := hwf.eq_leaf
      rw [outline, List.mem_cons] at hmem
      obtain hnode | hvalue := hmem
      · cases hnode
      · obtain ⟨entry, hentry, heq⟩ := List.mem_map.mp hvalue
        cases heq
        exact ⟨0, leaf, entry.2, by decide, rfl, hentry, rfl⟩
  | succ level ih =>
      obtain ⟨node, rfl, hnode, hfits⟩ := hwf.eq_branch
      rw [outline, List.mem_cons] at hmem
      obtain hline | hbelow := hmem
      · cases hline
      · obtain ⟨entry, hentry, hvalue⟩ := List.mem_flatMap.mp hbelow
        have hfind := hnode.mem_entries.mp hentry
        obtain ⟨address, leaf, held, hreach, hleaf, hheld⟩ :=
          ih (hfits.2 _ _ hfind) (by omega) hvalue
        obtain ⟨longer, hlonger, -, -, hsame⟩ := hwf.exists_address hlevel hfind hreach
        exact ⟨longer, leaf, held, hlonger, hsame.trans hleaf, hheld⟩

/-- The entries of a section whose only node is a leaf. -/
def leafValues (f : V → W) (node : Node V) : List (List Slot × W) :=
  node.entries.map fun entry => ([entry.1], f entry.2)

theorem number_child {base : Address} (hbase : base.Aligned (level + 1)) (hlevel : level ≤ maxLevel)
    {slot : Slot} (hslot : level = maxLevel → slot.val ≤ 3)
    (hslots : DumpLine.number slots = base.stem (level + 1)) :
    DumpLine.number (slots ++ [slot]) = (base.child level slot).stem level := by
  rw [DumpLine.number_append, hslots, stem_child hbase hlevel hslot]

/-- The line of a leaf is marked just where a reader takes the staged leaf in its place. -/
theorem resolve_of_isTarget {staging? : Option (Staging V)} {held : Leaf V}
    (hmarked : (Trie.leaf held).isTarget (staging?.map Staging.target) = true) :
    ∃ staging, staging? = some staging ∧
      Overlay.resolve (staging?.map Staging.overlay) held = staging.leaf := by
  cases staging? with
  | none => cases hmarked
  | some staging => exact ⟨staging, rfl, if_pos hmarked⟩

theorem resolve_of_not_isTarget {staging? : Option (Staging V)} {held : Leaf V}
    (hmarked : (Trie.leaf held).isTarget (staging?.map Staging.target) = false) :
    Overlay.resolve (staging?.map Staging.overlay) held = held := by
  cases staging? with
  | none => rfl
  | some staging => exact if_neg (Bool.eq_false_iff.mp hmarked)

/-- A trie shows what a traversal lists that reads the staged leaf for the target. -/
theorem entries_outline {staging? : Option (Staging V)} {staged : List (List Slot × W)}
    {targets : List (List Slot)} {base : Address}
    (hstaged : ∀ staging, staging? = some staging → staged = leafValues f staging.leaf.node)
    (hwf : trie.WellFormed level) (hlevel : level ≤ maxLevel) (hbase : base.Aligned (level + 1))
    (hslots : DumpLine.number slots = base.stem (level + 1))
    (htargets : ∀ address leaf, address.minLevel ≤ level → trie.leafOn address level = some leaf →
      (slots ++ address.slotPath level ∈ targets ↔
        (Trie.leaf leaf).isTarget (staging?.map Staging.target) = true)) :
    (trie.outline f (staging?.map Staging.target) level slots).flatMap
        (DumpLine.entriesAt staged targets) =
      (trie.listing (staging?.map Staging.overlay) level base).map
        fun entry => (entry.1.toNat, f entry.2) := by
  induction level generalizing trie base slots with
  | zero =>
      obtain ⟨held, rfl, -⟩ := hwf.eq_leaf
      have htarget := htargets 0 held (by decide) rfl
      rw [slotPath, List.append_nil] at htarget
      have hnumber : ∀ slot, DumpLine.number (slots ++ [slot]) = (base.child 0 slot).toNat := by
        intro slot
        rw [number_child hbase hlevel (val_le_of_zero_eq slot) hslots, stem_zero]
      have hvalues : ∀ entry : Slot × V, DumpLine.entriesAt staged targets
          (slots ++ [entry.1], .value (slots.length + 1) entry.1 (f entry.2)) =
            if slots ∈ targets then [] else [((base.child 0 entry.1).toNat, f entry.2)] := by
        intro entry
        rw [DumpLine.entriesAt, List.dropLast_concat, hnumber]
      rw [outline, listing, List.flatMap_cons, List.flatMap_map, List.map_map]
      simp only [hvalues, htarget]
      cases hmarked : (leaf held).isTarget (staging?.map Staging.target) with
      | true =>
          obtain ⟨staging, hstaging, hresolve⟩ := resolve_of_isTarget hmarked
          rw [DumpLine.entriesAt, hstaged staging hstaging, leafValues, List.map_map, hresolve]
          simp [hnumber, Function.comp_def]
      | false =>
          rw [resolve_of_not_isTarget hmarked]
          simp [DumpLine.entriesAt, List.map_eq_flatMap]
  | succ level ih =>
      obtain ⟨node, rfl, hnode, hfits⟩ := hwf.eq_branch
      rw [outline, listing, List.flatMap_cons, List.flatMap_assoc, List.map_flatMap]
      refine List.flatMap_congr fun entry hmem => ?_
      have hfind := hnode.mem_entries.mp hmem
      have hslot := fun htop => hfits.1 htop _ _ hfind
      apply ih (hfits.2 _ _ hfind) (by omega) (aligned_child hbase hlevel hslot)
        (number_child hbase hlevel hslot hslots)
      intro address leaf hreach hleaf
      obtain ⟨longer, hlonger, hdigit, hpath, hsame⟩ := hwf.exists_address hlevel hfind hreach
      rw [← htargets longer leaf hlonger (hsame.trans hleaf), slotPath, hdigit,
        slotPath_eq_iff.mpr hpath, List.append_assoc, List.singleton_append]

end Outline

end Trie

/-! ### The lines of a map -/

namespace IntMap

variable {map : IntMap V}

/-- The lines of the trie, with the slots on the way to each. -/
def trieOutline (f : V → W) (map : IntMap V) : List (List Slot × DumpLine W) :=
  match map.root with
  | some root => root.outline f (map.staging.map Staging.target) map.rootLevel []
  | none => [([], .empty)]

/-- The lines of the staging section, with the slots on the way to each. -/
def stagingOutline (f : V → W) (map : IntMap V) : List (List Slot × DumpLine W) :=
  match map.staging with
  | some staging => ([], .stagingTitle) :: (Trie.leaf staging.leaf).outline f none 0 []
  | none => []

/-- The lines of the dump. -/
def outlined (f : V → W) (map : IntMap V) : List (DumpLine W) :=
  (map.trieOutline f ++ map.stagingOutline f).map (·.2)

theorem trieOutline_of_root (f : V → W) {root : Trie V} (hroot : map.root = some root) :
    map.trieOutline f = root.outline f (map.staging.map Staging.target) map.rootLevel [] := by
  rw [trieOutline, hroot]

theorem stagingOutline_of_staged (f : V → W) {staging : Staging V}
    (hstaging : map.staging = some staging) :
    map.stagingOutline f = ([], .stagingTitle) :: (Trie.leaf staging.leaf).outline f none 0 [] := by
  rw [stagingOutline, hstaging]

theorem Sound.dump_eq (hsound : map.Sound) : map.dump = .ok (map.outlined id) := by
  have htrie : map.dumpTrie = .ok ((map.trieOutline id).map (·.2)) := by
    cases hroot : map.root with
    | none =>
        rw [dumpTrie, trieOutline, hroot]
        rfl
    | some root =>
        have hlines := Trie.dump_eq (map.staging.map Staging.target) [] (hsound.root root hroot)
        rw [List.length_nil, Nat.zero_add] at hlines
        rw [dumpTrie, trieOutline_of_root id hroot, Trie.outline_eq_cons, hroot]
        simp only [hlines, Checked.ok_bind, Checked.pure_eq]
        rfl
  have hstaging : map.dumpStaging = (map.stagingOutline id).map (·.2) := by
    cases hstaged : map.staging with
    | none =>
        rw [dumpStaging, stagingOutline, hstaged]
        rfl
    | some staging =>
        rw [dumpStaging, stagingOutline_of_staged id hstaged, hstaged, Trie.outline, List.map_cons,
          List.map_cons, List.map_map]
        rfl
  rw [dump, htrie, Checked.ok_bind, hstaging, outlined, List.map_append]
  rfl

end IntMap

end RadixMap
