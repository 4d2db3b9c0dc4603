import Mathlib
import RadixMap.Trie.Graft
import RadixMap.Trie.Write
import RadixMap.Proofs.Checked
import RadixMap.Proofs.NodeUpdate
import RadixMap.Proofs.TrieLeaves

/-!
# Writing to a trie

Each operation that changes a trie changes the leaf on one path and leaves every other path as it was.
The proofs go down the path: a branch takes the changed child at one slot, and an address that turns
off there keeps its leaf.
-/

namespace RadixMap

open Address

variable {V : Type}

namespace Trie

/-- The children of a branch above `level` are well formed and stand at slots that addresses have. -/
def Fits (level : Nat) (table : Table (Trie V)) : Prop :=
  (level + 1 = maxLevel → ∀ slot child, table slot = some child → slot.val ≤ 3) ∧
    ∀ slot child, table slot = some child → child.WellFormed level

/-- The leaf on the path of an address below a branch with the given children. -/
def leafThrough (table : Table (Trie V)) (address : Address) (level : Nat) : Option (Leaf V) :=
  (table (address.digit (level + 1))).bind fun child => child.leafOn address level

theorem leafOn_branch {node : Node (Trie V)} {table : Table (Trie V)} {address : Address}
    {level : Nat} (hstores : node.Stores table) :
    (branch node).leafOn address (level + 1) = leafThrough table address level := by
  rw [leafOn, hstores.find_eq, leafThrough]

theorem wellFormed_branch {node : Node (Trie V)} {table : Table (Trie V)} {level : Nat}
    (hstores : node.Stores table) (hfits : Fits level table) :
    (branch node).WellFormed (level + 1) := by
  refine ⟨hstores.wellFormed, ?_⟩
  rw [hstores.find_eq]
  exact hfits

theorem Fits.update {level : Nat} {table : Table (Trie V)} {child : Trie V} (hfits : Fits level table)
    (hchild : child.WellFormed level) (address : Address) :
    Fits level (table.update (address.digit (level + 1)) (some child)) := by
  constructor
  · intro htop slot held hslot
    by_cases heq : slot = address.digit (level + 1)
    · rw [heq, htop]
      exact address.digit_maxLevel_le
    · rw [Table.update_of_ne heq] at hslot
      exact hfits.1 htop slot held hslot
  · intro slot held hslot
    by_cases heq : slot = address.digit (level + 1)
    · rw [heq, Table.update_self] at hslot
      cases hslot
      exact hchild
    · rw [Table.update_of_ne heq] at hslot
      exact hfits.2 slot held hslot

theorem Fits.erase {level : Nat} {table : Table (Trie V)} (hfits : Fits level table) (slot : Slot) :
    Fits level (table.update slot none) := by
  have hkept : ∀ other child, table.update slot none other = some child →
      table other = some child := by
    intro other child hother
    by_cases heq : other = slot
    · rw [heq, Table.update_self] at hother
      cases hother
    · rwa [Table.update_of_ne heq] at hother
  exact ⟨fun htop other child hother => hfits.1 htop other child (hkept other child hother),
    fun other child hother => hfits.2 other child (hkept other child hother)⟩

theorem fits_empty (level : Nat) : Fits level (Table.empty : Table (Trie V)) :=
  ⟨fun _ _ _ hslot => (nomatch hslot), fun _ _ hslot => (nomatch hslot)⟩

theorem leafThrough_update {table : Table (Trie V)} {address : Address} {level : Nat}
    {child? : Option (Trie V)} {leaf? : Option (Leaf V)}
    (hchild : ∀ other : Address, (child?.bind fun child => child.leafOn other level) =
      if other.SamePath address level then leaf?
      else (table (address.digit (level + 1))).bind fun child => child.leafOn other level)
    (other : Address) :
    leafThrough (table.update (address.digit (level + 1)) child?) other level =
      if other.SamePath address (level + 1) then leaf? else leafThrough table other level := by
  by_cases hdigit : other.digit (level + 1) = address.digit (level + 1)
  · rw [leafThrough, hdigit, Table.update_self, hchild, leafThrough, hdigit]
    simp only [SamePath, hdigit, true_and]
  · rw [leafThrough, Table.update_of_ne hdigit, leafThrough, if_neg fun hpath => hdigit hpath.1]

/-- A branch with a changed child at one slot is well formed and changes one path. -/
theorem branch_update {node changed : Node (Trie V)} {table : Table (Trie V)} {address : Address}
    {level : Nat} {child : Trie V} {leaf? : Option (Leaf V)} (hnode : node.Stores table)
    (hfits : Fits level table) (hchild : child.WellFormed level)
    (hchanged : changed.Stores (table.update (address.digit (level + 1)) (some child)))
    (hpaths : ∀ other : Address, ((some child).bind fun child => child.leafOn other level) =
      if other.SamePath address level then leaf?
      else (table (address.digit (level + 1))).bind fun child => child.leafOn other level) :
    (branch changed).WellFormed (level + 1) ∧
      ∀ other : Address, (branch changed).leafOn other (level + 1) =
        if other.SamePath address (level + 1) then leaf?
        else (branch node).leafOn other (level + 1) := by
  refine ⟨wellFormed_branch hchanged (hfits.update hchild address), fun other => ?_⟩
  rw [leafOn_branch hchanged, leafOn_branch hnode]
  exact leafThrough_update hpaths other

/-- What is left of a branch of which one child shrinks or goes is well formed and changes one path. -/
theorem branch_shrink {node : Node (Trie V)} {rest? : Option (Node (Trie V))}
    {table : Table (Trie V)} {address : Address} {level : Nat} {child? : Option (Trie V)}
    {leaf? : Option (Leaf V)} (hnode : node.Stores table) (hfits : Fits level table)
    (hchild : ∀ child, child? = some child → child.WellFormed level)
    (hremains : Node.Remains rest? (table.update (address.digit (level + 1)) child?))
    (hpaths : ∀ other : Address, (child?.bind fun child => child.leafOn other level) =
      if other.SamePath address level then leaf?
      else (table (address.digit (level + 1))).bind fun child => child.leafOn other level) :
    (∀ rest, rest?.map branch = some rest → rest.WellFormed (level + 1)) ∧
      ∀ other : Address, ((rest?.map branch).bind fun rest => rest.leafOn other (level + 1)) =
        if other.SamePath address (level + 1) then leaf?
        else (branch node).leafOn other (level + 1) := by
  constructor
  · intro rest hrest
    obtain ⟨kept, rfl, rfl⟩ := Option.map_eq_some_iff.mp hrest
    apply wellFormed_branch hremains
    cases hshrunk : child? with
    | none => exact hfits.erase _
    | some child => exact hfits.update (hchild child hshrunk) address
  · intro other
    rw [leafOn_branch hnode, ← leafThrough_update hpaths other]
    cases rest? with
    | some kept => exact leafOn_branch hremains
    | none =>
        have hempty : table.update (address.digit (level + 1)) child? = Table.empty := hremains
        rw [hempty]
        rfl

/-! ### A path of its own -/

theorem chain_ok (address : Address) {bottom : Leaf V} {level : Nat}
    (hbottom : bottom.node.WellFormed) (hlevel : level ≤ maxLevel) :
    ∃ trie, chain address bottom level = .ok trie ∧ trie.WellFormed level ∧
      ∀ other : Address, trie.leafOn other level =
        if other.SamePath address level then some bottom else none := by
  induction level with
  | zero => exact ⟨leaf bottom, rfl, hbottom, fun other => rfl⟩
  | succ level ih =>
      obtain ⟨child, hchain, hchild, hleaf⟩ := ih (by omega)
      have hstores := Node.stores_one (address.digit (level + 1)) child
      refine ⟨branch (.one (address.digit (level + 1)) child), ?_,
        wellFormed_branch hstores ((fits_empty level).update hchild address), ?_⟩
      · simp only [chain, slotAt_eq address hlevel, hchain, Checked.ok_bind, Checked.pure_eq]
      · have hstep : ∀ other : Address,
            ((some child).bind fun child => child.leafOn other level) =
              if other.SamePath address level then some bottom
              else (Table.empty (address.digit (level + 1))).bind fun child : Trie V =>
                child.leafOn other level := hleaf
        intro other
        rw [leafOn_branch hstores, Table.single, leafThrough_update hstep]
        rfl

/-! ### Writing a value -/

/-- The value is put into the leaf on its path, or into a leaf of its own where the path ends; either
way the leaf gets a new number. -/
theorem write_ok {level : Nat} {trie : Trie V} (fresh : Nat) (address : Address) (value : V)
    (hwf : trie.WellFormed level) (hlevel : level ≤ maxLevel) :
    ∃ written, trie.write fresh address value level = .ok written ∧ written.trie.WellFormed level ∧
      written.leaf.serial = fresh ∧
      written.leaf.node.Stores
        ((Leaf.tableOf (trie.leafOn address level)).update (address.digit 0) (some value)) ∧
      written.added = (Leaf.tableOf (trie.leafOn address level) (address.digit 0)).isNone ∧
      ∀ other : Address, written.trie.leafOn other level =
        if other.SamePath address level then some written.leaf else trie.leafOn other level := by
  induction level generalizing trie with
  | zero =>
      obtain ⟨held, rfl, hnode⟩ := hwf.eq_leaf
      obtain ⟨stored, hput, hstored⟩ := hnode.stores.put_ok (address.digit 0) value
      refine ⟨⟨leaf ⟨fresh, stored⟩, ⟨fresh, stored⟩, (held.node.find (address.digit 0)).isNone⟩, ?_,
        hstored.wellFormed, rfl, hstored, rfl, fun other => rfl⟩
      simp only [write, slotAt_zero, hput, Checked.ok_bind, Checked.pure_eq]
  | succ level ih =>
      obtain ⟨node, rfl, hnode, hfits⟩ := hwf.eq_branch
      have hstores := hnode.stores
      cases hfind : node.find (address.digit (level + 1)) with
      | some child =>
          obtain ⟨written, hwrite, hchild, hserial, hleaf, hadded, hpaths⟩ :=
            ih (hfits.2 _ child hfind) (by omega)
          obtain ⟨replaced, hreplace, hreplaced⟩ := hstores.replace_ok hfind written.trie
          obtain ⟨hwf, hpaths⟩ :=
            branch_update hstores hfits hchild hreplaced (by rw [hfind]; exact hpaths)
          rw [leafOn_branch_of_find hfind]
          refine ⟨{ written with trie := branch replaced }, ?_, hwf, hserial, hleaf, hadded, hpaths⟩
          simp only [write, slotAt_eq address hlevel, hstores.get?_eq, hfind, hwrite, hreplace,
            Checked.ok_bind, Checked.pure_eq]
      | none =>
          let bottom : Leaf V := ⟨fresh, .one (address.digit 0) value⟩
          have hbottom : bottom.node.WellFormed := trivial
          obtain ⟨side, hchain, hside, hpaths⟩ := chain_ok address hbottom (show level ≤ _ by omega)
          obtain ⟨added, hadd, hadded⟩ := hstores.add_ok hfind side
          obtain ⟨hwf, hpaths⟩ :=
            branch_update hstores hfits hside hadded (by rw [hfind]; exact hpaths)
          rw [leafOn_branch_of_free hfind]
          refine ⟨⟨branch added, bottom, true⟩, ?_, hwf, rfl,
            Node.stores_one (address.digit 0) value, rfl, hpaths⟩
          simp only [bottom, write, slotAt_eq address hlevel, slotAt_zero, hstores.get?_eq, hfind, hchain,
            hadd, Checked.ok_bind, Checked.pure_eq]

/-! ### Erasing a value or a block -/

/-- Nothing is erased where there is no leaf and, of a leaf, no value at a free slot. -/
theorem erase?_absent {level : Nat} {trie : Trie V} {address : Address} {whole : Bool} (fresh : Nat)
    (hwf : trie.WellFormed level) (hlevel : level ≤ maxLevel)
    (habsent : ∀ leaf, trie.leafOn address level = some leaf →
      whole = false ∧ leaf.node.find (address.digit 0) = none) :
    trie.erase? fresh address whole level = .ok none := by
  induction level generalizing trie with
  | zero =>
      obtain ⟨held, rfl, hnode⟩ := hwf.eq_leaf
      obtain ⟨rfl, hfree⟩ := habsent held rfl
      simp only [erase?, slotAt_zero, hnode.stores.get?_eq, hfree, Checked.ok_bind, Checked.pure_eq,
        Bool.false_eq_true, ↓reduceIte]
  | succ level ih =>
      obtain ⟨node, rfl, hnode, hfits⟩ := hwf.eq_branch
      cases hfind : node.find (address.digit (level + 1)) with
      | none =>
          simp only [erase?, slotAt_eq address hlevel, hnode.stores.get?_eq, hfind, Checked.ok_bind,
            Checked.pure_eq]
      | some child =>
          rw [leafOn_branch_of_find hfind] at habsent
          have hchild := ih (hfits.2 _ child hfind) (by omega) habsent
          simp only [erase?, slotAt_eq address hlevel, hnode.stores.get?_eq, hfind, hchild,
            Checked.ok_bind, Checked.pure_eq]

/-- Of a leaf, one value is erased or all of them; what is left gets a new number. -/
theorem erase?_leaf {held : Leaf V} {address : Address} {whole : Bool} (fresh : Nat)
    (hnode : held.node.WellFormed)
    (hheld : whole = true ∨ ∃ value, held.node.find (address.digit 0) = some value) :
    ∃ rest? : Option (Leaf V),
      (leaf held).erase? fresh address whole 0 = .ok (some ⟨rest?.map leaf, rest?⟩) ∧
      (∀ rest, rest? = some rest → rest.serial = fresh ∧ rest.node.WellFormed) ∧
      Node.Remains (rest?.map Leaf.node)
        (if whole then Table.empty else held.node.find.update (address.digit 0) none) := by
  cases whole with
  | true => exact ⟨none, rfl, fun rest hrest => (nomatch hrest), rfl⟩
  | false =>
      obtain ⟨value, hslot⟩ := hheld.resolve_left Bool.false_ne_true
      obtain ⟨node?, hremove, hremains⟩ := hnode.stores.remove_ok hslot
      refine ⟨node?.map fun rest => ⟨fresh, rest⟩, ?run, ?rest, ?remains⟩
      case run =>
        simp only [erase?, slotAt_zero, hnode.stores.get?_eq, hslot, hremove, Checked.ok_bind,
          Checked.pure_eq, Bool.false_eq_true, ↓reduceIte]
      case rest =>
        intro rest hrest
        obtain ⟨node, rfl, rfl⟩ := Option.map_eq_some_iff.mp hrest
        exact ⟨rfl, Node.Stores.wellFormed hremains⟩
      case remains => cases node? <;> exact hremains

/-- An erasure takes a value out of the leaf on its path, or the whole leaf; a branch that would be
left empty goes with it, and what is left of the leaf gets a new number. -/
theorem erase?_present {level : Nat} {trie : Trie V} {address : Address} {whole : Bool}
    {leaf : Leaf V} (fresh : Nat) (hwf : trie.WellFormed level) (hlevel : level ≤ maxLevel)
    (hleaf : trie.leafOn address level = some leaf)
    (hheld : whole = true ∨ ∃ held, leaf.node.find (address.digit 0) = some held) :
    ∃ erased, trie.erase? fresh address whole level = .ok (some erased) ∧
      (∀ rest, erased.trie? = some rest → rest.WellFormed level) ∧
      (∀ rest, erased.leaf? = some rest → rest.serial = fresh) ∧
      Node.Remains (erased.leaf?.map Leaf.node)
        (if whole then Table.empty else leaf.node.find.update (address.digit 0) none) ∧
      ∀ other : Address, (erased.trie?.bind fun rest => rest.leafOn other level) =
        if other.SamePath address level then erased.leaf? else trie.leafOn other level := by
  induction level generalizing trie with
  | zero =>
      obtain ⟨kept, rfl, hnode⟩ := hwf.eq_leaf
      cases hleaf
      obtain ⟨rest?, herase, hrest, hremains⟩ := erase?_leaf fresh hnode hheld
      refine ⟨_, herase, ?wellFormed, fun rest hsome => (hrest rest hsome).1, hremains, ?paths⟩
      case wellFormed =>
        intro rest hsome
        obtain ⟨bottom, hbottom, rfl⟩ := Option.map_eq_some_iff.mp hsome
        exact (hrest bottom hbottom).2
      case paths =>
        intro other
        cases rest? <;> rfl
  | succ level ih =>
      obtain ⟨node, rfl, hnode, hfits⟩ := hwf.eq_branch
      have hstores := hnode.stores
      cases hfind : node.find (address.digit (level + 1)) with
      | none =>
          rw [leafOn_branch_of_free hfind] at hleaf
          cases hleaf
      | some child =>
          rw [leafOn_branch_of_find hfind] at hleaf
          obtain ⟨erased, herase, hrests, hserial, hremains, hpaths⟩ :=
            ih (hfits.2 _ child hfind) (by omega) hleaf
          obtain ⟨rest?, hupdate, hrest⟩ := hstores.update_ok hfind erased.trie?
          obtain ⟨hwf, hpaths⟩ :=
            branch_shrink hstores hfits hrests hrest (by rw [hfind]; exact hpaths)
          refine ⟨{ erased with trie? := rest?.map branch }, ?_, hwf, hserial, hremains, hpaths⟩
          simp only [erase?, slotAt_eq address hlevel, hstores.get?_eq, hfind, herase, hupdate,
            Checked.ok_bind, Checked.pure_eq]

end Trie

end RadixMap
