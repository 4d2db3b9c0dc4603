import Mathlib
import RadixMap.Trie.Prune
import RadixMap.Proofs.Contents
import RadixMap.Proofs.NodeRemoval
import RadixMap.Proofs.TrieListing

/-!
# Pruning a trie

What pruning leaves of a trie lists the entries that the test lets pass, in the order in which the
test saw them, and a trie of which the test lets every entry pass is kept as it stands. An entry of a
branch is listed as the trie below it. The leaves that pruning makes are numbered from the given number
up, so with the number that it returns there is one above all of them.
-/

namespace RadixMap

variable {E V α σ : Type}

theorem sieve_append_eq_self {test : V → σ → Bool × σ} {front back : List (α × V)} {state : σ}
    (hself : (sieve test (front ++ back) state).1 = front ++ back) :
    (sieve test front state).1 = front ∧
      (sieve test back (sieve test front state).2).1 = back := by
  rw [sieve_append] at hself
  have hfront := sieve_sublist test front state
  have hback := sieve_sublist test back (sieve test front state).2
  have hlength := congrArg List.length hself
  rw [List.length_append, List.length_append] at hlength
  have hfrontLength := hfront.length_le
  have hbackLength := hback.length_le
  exact ⟨hfront.eq_of_length (by omega), hback.eq_of_length (by omega)⟩

namespace Node

/-- What is left is good and lists the given entries, or nothing is left and none are given. -/
def Shows (good : E → Prop) (shown : E → List (α × V)) : Option E → List (α × V) → Prop
  | some rest, kept => good rest ∧ shown rest = kept
  | none, kept => kept = []

variable {test : V → σ → Bool × σ} {prune : E → σ × Nat → Checked (Pruned E × σ × Nat)}
  {good : Nat → Slot × E → Prop} {shown : Slot × E → List (α × V)}

/-- The step of the pruning takes an entry that is good below a number to what the test leaves of its
listing, which is good below the number that is the next one then. -/
def Prunes (test : V → σ → Bool × σ) (prune : E → σ × Nat → Checked (Pruned E × σ × Nat))
    (good : Nat → Slot × E → Prop) (shown : Slot × E → List (α × V)) (entry : Slot × E) : Prop :=
  ∀ state fresh, good fresh entry → ∃ verdict later,
    prune entry.2 (state, fresh) = .ok (verdict, (sieve test (shown entry) state).2, later) ∧
    fresh ≤ later ∧
    Shows (fun rest => good later (entry.1, rest)) (fun rest => shown (entry.1, rest))
      (verdict.remains? entry.2) (sieve test (shown entry) state).1 ∧
    ((sieve test (shown entry) state).1 = shown entry → verdict = .kept)

/-- The survivors of entries, after which `later` is the next number. -/
structure Survivors.Of (survivors : Survivors E) (test : V → σ → Bool × σ)
    (good : Nat → Slot × E → Prop) (shown : Slot × E → List (α × V)) (entries : List (Slot × E))
    (state : σ) (later : Nat) : Prop where
  listed : survivors.entries.flatMap shown = (sieve test (entries.flatMap shown) state).1
  slots : (survivors.entries.map (·.1)).Sublist (entries.map (·.1))
  good : ∀ entry ∈ survivors.entries, good later entry
  same : survivors.unchanged = true → survivors.entries = entries
  unchanged : (sieve test (entries.flatMap shown) state).1 = entries.flatMap shown →
    survivors.unchanged = true

theorem pruneEntries_ok {entries : List (Slot × E)}
    (hmono : ∀ entry fresh later, fresh ≤ later → good fresh entry → good later entry)
    (hprune : ∀ entry ∈ entries, Prunes test prune good shown entry) (state : σ) {fresh : Nat}
    (hgood : ∀ entry ∈ entries, good fresh entry) :
    ∃ survivors later, pruneEntries prune entries (state, fresh) =
        .ok (survivors, (sieve test (entries.flatMap shown) state).2, later) ∧
      fresh ≤ later ∧ survivors.Of test good shown entries state later := by
  induction entries generalizing state fresh with
  | nil =>
      exact ⟨⟨[], true⟩, fresh, rfl, le_rfl, rfl, List.Sublist.refl _, fun entry hmem => (nomatch hmem),
        fun _ => rfl, fun _ => rfl⟩
  | cons entry rest ih =>
      obtain ⟨slot, element⟩ := entry
      obtain ⟨verdict, middle, hverdict, hmiddle, hshows, hkept⟩ :=
        hprune _ List.mem_cons_self state fresh (hgood _ List.mem_cons_self)
      obtain ⟨survivors, later, hsurvivors, hlater, hof⟩ :=
        ih (fun entry hmem => hprune entry (List.mem_cons_of_mem _ hmem))
          (sieve test (shown (slot, element)) state).2
          fun entry hmem => hmono _ _ _ hmiddle (hgood entry (List.mem_cons_of_mem _ hmem))
      refine ⟨⟨((verdict.remains? element).map (slot, ·)).toList ++ survivors.entries,
        verdict.isKept && survivors.unchanged⟩, later, ?run, hmiddle.trans hlater, ?listed, ?slots,
        ?good, ?same, ?unchanged⟩
      case run =>
        simp only [pruneEntries, hverdict, hsurvivors, Checked.ok_bind, Checked.pure_eq,
          List.flatMap_cons, sieve_append]
      case listed =>
        rw [List.flatMap_append, hof.listed, List.flatMap_cons, sieve_append]
        congr 1
        cases hrest : verdict.remains? element with
        | none =>
            rw [hrest] at hshows
            exact hshows.symm
        | some rest =>
            rw [hrest] at hshows
            exact (List.append_nil _).trans hshows.2
      case slots =>
        rw [List.map_append, List.map_cons]
        cases verdict.remains? element with
        | none => exact hof.slots.cons slot
        | some rest => exact hof.slots.cons_cons slot
      case good =>
        intro entry hmem
        rcases List.mem_append.mp hmem with hhead | htail
        · cases hrest : verdict.remains? element with
          | none =>
              rw [hrest] at hhead
              cases hhead
          | some rest =>
              rw [hrest] at hhead hshows
              obtain rfl := List.mem_singleton.mp hhead
              exact hmono _ _ _ hlater hshows.1
        · exact hof.good entry htail
      case same =>
        intro hunchanged
        obtain ⟨hhead, hrest⟩ := Bool.and_eq_true_iff.mp hunchanged
        cases verdict with
        | kept => exact congrArg ((slot, element) :: ·) (hof.same hrest)
        | cut rest => cases hhead
        | gone => cases hhead
      case unchanged =>
        intro hself
        rw [List.flatMap_cons] at hself
        obtain ⟨hhead, hrest⟩ := sieve_append_eq_self hself
        rw [hkept hhead, hof.unchanged hrest]
        rfl

theorem prune_ok {node : Node E} (hwf : node.WellFormed)
    (hmono : ∀ entry fresh later, fresh ≤ later → good fresh entry → good later entry)
    (hprune : ∀ entry ∈ node.entries, Prunes test prune good shown entry) (state : σ) {fresh : Nat}
    (hgood : ∀ entry ∈ node.entries, good fresh entry) :
    ∃ verdict later, node.prune prune (state, fresh) =
        .ok (verdict, (sieve test (node.entries.flatMap shown) state).2, later) ∧
      fresh ≤ later ∧
      Shows (fun rest => rest.WellFormed ∧ ∀ entry ∈ rest.entries, good later entry)
        (fun rest => rest.entries.flatMap shown) (verdict.remains? node)
        (sieve test (node.entries.flatMap shown) state).1 ∧
      ((sieve test (node.entries.flatMap shown) state).1 = node.entries.flatMap shown →
        verdict = .kept) := by
  obtain ⟨survivors, later, hsurvivors, hlater, hof⟩ := pruneEntries_ok hmono hprune state hgood
  by_cases hunchanged : survivors.unchanged = true
  · have hsame := hof.same hunchanged
    refine ⟨.kept, later, ?_, hlater, ⟨⟨hwf, hsame ▸ hof.good⟩, ?_⟩, fun _ => rfl⟩
    · simp only [Node.prune, hsurvivors, hunchanged, Checked.ok_bind, Checked.pure_eq, if_true]
    · rw [← hof.listed, hsame]
  · have hsorted : survivors.entries.Pairwise fun left right => left.1 < right.1 := by
      have hnode := hwf.stores.pairwise_entries
      rw [← List.pairwise_map (f := Prod.fst) (R := (· < ·))] at hnode
      exact List.pairwise_map.mp (hnode.sublist hof.slots)
    obtain ⟨rest?, hrest, hremains⟩ := ofSurvivors_slotSet hsorted
    cases rest? with
    | none =>
        refine ⟨.gone, later, ?_, hlater, ?_, fun hself => absurd (hof.unchanged hself) hunchanged⟩
        · simp only [Node.prune, hsurvivors, hunchanged, hrest, Checked.ok_bind, Checked.pure_eq,
            Bool.false_eq_true, if_false]
        · rw [← hof.listed, (Table.ofEntries_eq_empty hsorted).mp hremains]
          rfl
    | some rest =>
        have hrestEntries : rest.entries = survivors.entries := by
          rw [Stores.entries_eq hremains, Table.entries_ofEntries hsorted]
        refine ⟨.cut rest, later, ?_, hlater, ⟨⟨Stores.wellFormed hremains, ?_⟩, ?_⟩,
          fun hself => absurd (hof.unchanged hself) hunchanged⟩
        · simp only [Node.prune, hsurvivors, hunchanged, hrest, Checked.ok_bind, Checked.pure_eq,
            Bool.false_eq_true, if_false]
        · rw [hrestEntries]
          exact hof.good
        · exact (congrArg (·.flatMap shown) hrestEntries).trans hof.listed

end Node

namespace Trie

open Address

variable {level : Nat} {trie : Trie V}

/-- Every leaf has a number below the next one to give. -/
def Numbered (fresh : Nat) : Nat → Trie V → Prop
  | _, leaf held => held.serial < fresh
  | 0, branch _ => True
  | level + 1, branch node => ∀ slot child, node.find slot = some child → child.Numbered fresh level

theorem Numbered.mono {fresh later : Nat} (hnumbered : trie.Numbered fresh level)
    (hle : fresh ≤ later) : trie.Numbered later level := by
  induction level generalizing trie with
  | zero =>
      cases trie with
      | leaf held => exact Nat.lt_of_lt_of_le hnumbered hle
      | branch node => trivial
  | succ level ih =>
      cases trie with
      | leaf held => exact Nat.lt_of_lt_of_le hnumbered hle
      | branch node => exact fun slot child hfind => ih (hnumbered slot child hfind)

theorem Numbered.leaves {fresh : Nat} (hnumbered : trie.Numbered fresh level) :
    (leaves level (some trie)).Numbered fresh := by
  intro address leaf hleaf
  by_cases hreach : address.minLevel ≤ level
  · rw [leaves_of_reach hreach, Option.bind_some] at hleaf
    clear hreach
    induction level generalizing trie with
    | zero =>
        cases trie with
        | leaf held => cases hleaf; exact hnumbered
        | branch node => cases hleaf
    | succ level ih =>
        cases trie with
        | leaf held => cases hleaf; exact hnumbered
        | branch node =>
            obtain ⟨child, hfind, hchild⟩ := Option.bind_eq_some_iff.mp hleaf
            exact ih (hnumbered _ child hfind) hchild
  · rw [leaves_of_not_reach (Nat.not_le.mp hreach)] at hleaf
    cases hleaf

theorem numbered_of_leaves {fresh : Nat} (hwf : trie.WellFormed level) (hlevel : level ≤ maxLevel)
    (hleaves : (leaves level (some trie)).Numbered fresh) : trie.Numbered fresh level := by
  induction level generalizing trie with
  | zero =>
      obtain ⟨held, rfl, -⟩ := hwf.eq_leaf
      exact hleaves 0 held rfl
  | succ level ih =>
      obtain ⟨node, rfl, -, hfits⟩ := hwf.eq_branch
      intro slot child hfind
      apply ih (hfits.2 slot child hfind) (by omega)
      intro address leaf hleaf
      by_cases hreach : address.minLevel ≤ level
      · obtain ⟨longer, hlonger, -, -, hsame⟩ := hwf.exists_address hlevel hfind hreach
        apply hleaves longer leaf
        rw [leaves_of_reach hreach, Option.bind_some] at hleaf
        rw [leaves_of_reach hlonger, Option.bind_some, hsame, hleaf]
      · rw [leaves_of_not_reach (Nat.not_le.mp hreach)] at hleaf
        cases hleaf

/-- What pruning may leave of a trie: a well-formed trie with numbers below the next one. -/
def Left (fresh level : Nat) (trie : Trie V) : Prop :=
  trie.WellFormed level ∧ trie.Numbered fresh level

/-- What pruning leaves of a leaf is the leaf itself or a leaf with the next number. -/
theorem prune_leaf_ok {held : Leaf V} {fresh : Nat} (hleft : (leaf held).Left fresh 0)
    (base : Address) (test : V → σ → Bool × σ) (state : σ) :
    ∃ verdict, (leaf held).prune test 0 (state, fresh) =
        .ok (verdict, (sieve test ((leaf held).listing none 0 base) state).2, fresh + 1) ∧
      Node.Shows (Left (fresh + 1) 0) (fun rest => rest.listing none 0 base)
        (verdict.remains? (leaf held)) (sieve test ((leaf held).listing none 0 base) state).1 ∧
      ((sieve test ((leaf held).listing none 0 base) state).1 = (leaf held).listing none 0 base →
        verdict = .kept) := by
  have hwf : held.node.WellFormed := hleft.1
  have hlisting : ∀ shown : Leaf V, (leaf shown).listing none 0 base =
      shown.node.entries.map fun entry => (base.child 0 entry.1, entry.2) := fun _ => rfl
  obtain ⟨verdict, hremove, hremains, hkept⟩ := Node.removeAll_ok test hwf state
  have hsorted := hwf.stores.pairwise_entries.sublist (sieve_sublist test held.node.entries state)
  rw [hlisting, sieve_map]
  refine ⟨verdict.map fun rest => leaf ⟨fresh, rest⟩, ?run, ?shows, ?kept⟩
  case run => simp only [Trie.prune, hremove, Checked.ok_bind, Checked.pure_eq]
  case shows =>
    cases verdict with
    | kept =>
        have hall := (sieve_eq_self_iff test).mpr (hkept.mp rfl)
        exact ⟨⟨hwf, Nat.lt_succ_of_lt hleft.2⟩, (hlisting held).trans (congrArg _ hall.symm)⟩
    | cut rest =>
        have hentries : rest.entries = (sieve test held.node.entries state).1 := by
          rw [Node.Stores.entries_eq hremains, Table.entries_ofEntries hsorted]
        exact ⟨⟨Node.Stores.wellFormed hremains, Nat.lt_succ_self fresh⟩,
          (hlisting _).trans (congrArg _ hentries)⟩
    | gone =>
        rw [(Table.ofEntries_eq_empty hsorted).mp hremains]
        rfl
  case kept =>
    intro hself
    have hlength := congrArg List.length hself
    rw [List.length_map, List.length_map] at hlength
    have hall := (sieve_sublist test held.node.entries state).eq_of_length hlength
    rw [hkept.mpr ((sieve_eq_self_iff test).mp hall)]
    rfl

theorem prune_ok {fresh : Nat} (hleft : trie.Left fresh level) (base : Address)
    (test : V → σ → Bool × σ) (state : σ) :
    ∃ verdict later, trie.prune test level (state, fresh) =
        .ok (verdict, (sieve test (trie.listing none level base) state).2, later) ∧
      fresh ≤ later ∧
      Node.Shows (Left later level) (fun rest => rest.listing none level base)
        (verdict.remains? trie) (sieve test (trie.listing none level base) state).1 ∧
      ((sieve test (trie.listing none level base) state).1 = trie.listing none level base →
        verdict = .kept) := by
  induction level generalizing trie base state fresh with
  | zero =>
      obtain ⟨held, rfl, -⟩ := hleft.1.eq_leaf
      obtain ⟨verdict, hleaf⟩ := prune_leaf_ok hleft base test state
      exact ⟨verdict, fresh + 1, hleaf.1, Nat.le_succ fresh, hleaf.2⟩
  | succ level ih =>
      obtain ⟨hwf, hnumbered⟩ := hleft
      obtain ⟨node, rfl, hnode, hfits⟩ := hwf.eq_branch
      have hprune : ∀ entry ∈ node.entries, Node.Prunes test (Trie.prune test level)
          (fun fresh entry => (level + 1 = maxLevel → entry.1.val ≤ 3) ∧ entry.2.Left fresh level)
          (fun entry => entry.2.listing none level (base.child (level + 1) entry.1)) entry := by
        intro entry _ state fresh hgood
        obtain ⟨verdict, later, hverdict, hlater, hshows, hkept⟩ :=
          ih hgood.2 (base.child (level + 1) entry.1) state
        refine ⟨verdict, later, hverdict, hlater, ?_, hkept⟩
        cases hrest : verdict.remains? entry.2 with
        | none =>
            rw [hrest] at hshows
            exact hshows
        | some rest =>
            rw [hrest] at hshows
            exact ⟨⟨hgood.1, hshows.1⟩, hshows.2⟩
      have hgood : ∀ entry ∈ node.entries,
          (level + 1 = maxLevel → entry.1.val ≤ 3) ∧ entry.2.Left fresh level := by
        intro entry hmem
        have hfind := hnode.mem_entries.mp hmem
        exact ⟨fun htop => hfits.1 htop _ _ hfind, hfits.2 _ _ hfind, hnumbered _ _ hfind⟩
      obtain ⟨verdict, later, hverdict, hlater, hshows, hkept⟩ := Node.prune_ok hnode
        (fun entry fresh later hle hgood => ⟨hgood.1, hgood.2.1, hgood.2.2.mono hle⟩) hprune state hgood
      refine ⟨verdict.map branch, later, ?run, hlater, ?shows, ?kept⟩
      case run => simp only [Trie.prune, hverdict, Checked.ok_bind, Checked.pure_eq, listing]
      case kept =>
        intro hself
        rw [hkept hself]
        rfl
      case shows =>
        cases verdict with
        | kept => exact ⟨⟨hwf, hnumbered.mono hlater⟩, hshows.2⟩
        | gone => exact hshows
        | cut rest =>
            obtain ⟨⟨hrest, hentries⟩, hlisted⟩ := hshows
            have hchildren : ∀ slot child, rest.find slot = some child →
                (level + 1 = maxLevel → slot.val ≤ 3) ∧ child.Left later level :=
              fun slot child hfind => hentries _ (hrest.mem_entries.mpr hfind)
            refine ⟨⟨⟨hrest, ?_, ?_⟩, ?_⟩, hlisted⟩
            · exact fun htop slot child hfind => (hchildren slot child hfind).1 htop
            · exact fun slot child hfind => (hchildren slot child hfind).2.1
            · exact fun slot child hfind => (hchildren slot child hfind).2.2

end Trie

end RadixMap
