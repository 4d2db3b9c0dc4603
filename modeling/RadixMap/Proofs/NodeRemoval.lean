import Mathlib
import RadixMap.Node.Prune
import RadixMap.Proofs.NodeCanonical
import RadixMap.Proofs.Sieve

/-!
# Removing many elements of a node

The elements that a test rejects go all at once, and what is left is built from the survivors. Freeing
the rejected slots one after another leaves the same node, in whatever order: a node is the one stored
form of its table, and a table loses slots in any order.
-/

namespace RadixMap

variable {α E σ : Type}

/-- The keys of the entries whose own call was answered with a rejection. -/
def rejectedKeys (entries : List (α × E)) (calls : List (E × Bool)) : List α :=
  ((entries.zip calls).filter fun called => called.2.2).map (·.1.1)

section Calls

variable {entries : List (α × E)} {calls : List (E × Bool)}

theorem rejectedKeys_cons (entry : α × E) (call : E × Bool) :
    rejectedKeys (entry :: entries) (call :: calls) =
      if call.2 then entry.1 :: rejectedKeys entries calls else rejectedKeys entries calls := by
  cases hanswer : call.2 <;> simp [rejectedKeys, hanswer]

theorem rejectedKeys_sublist (hlength : entries.length = calls.length) :
    (rejectedKeys entries calls).Sublist (entries.map (·.1)) := by
  have hzip : (entries.zip calls).map (·.1.1) = entries.map (·.1) := by
    rw [← List.map_fst_zip hlength.le, List.map_map, List.map_fst_zip hlength.le]
    rfl
  rw [← hzip]
  exact List.filter_sublist.map _

end Calls

namespace Table

variable {table : Table E}

/-- The table with nothing at the given slots. -/
def without (table : Table E) (slots : List Slot) : Table E :=
  fun slot => if slot ∈ slots then none else table slot

@[simp]
theorem without_nil (table : Table E) : table.without [] = table := rfl

theorem without_cons (table : Table E) (slot : Slot) (slots : List Slot) :
    table.without (slot :: slots) = (table.update slot none).without slots := by
  funext other
  by_cases heq : other = slot
  · subst heq
    simp [without]
  · simp [without, heq, update_of_ne heq]

theorem without_perm {slots others : List Slot} (hperm : slots.Perm others) :
    table.without slots = table.without others := by
  funext slot
  simp only [without, hperm.mem_iff]

theorem without_update {slot : Slot} {slots : List Slot} (hnotMem : slot ∉ slots)
    (element? : Option E) :
    (table.update slot element?).without slots = (table.without slots).update slot element? := by
  funext other
  by_cases heq : other = slot
  · subst heq
    simp [without, hnotMem]
  · simp only [without, update_of_ne heq]

theorem ofEntries_cons (entry : Slot × E) (rest : List (Slot × E)) :
    ofEntries (entry :: rest) = (ofEntries rest).update entry.1 (some entry.2) := by
  funext slot
  by_cases heq : slot = entry.1
  · rw [heq, update_self, ofEntries, List.lookup_cons_self]
  · rw [update_of_ne heq, ofEntries, List.lookup_cons, beq_eq_false_iff_ne.mpr heq, ofEntries]

theorem ofEntries_of_notMem {entries : List (Slot × E)} {slot : Slot}
    (hnotMem : slot ∉ entries.map (·.1)) : ofEntries entries slot = none := by
  rw [ofEntries, List.lookup_eq_none_iff]
  intro entry hmem
  rw [bne_iff_ne]
  exact fun heq => hnotMem (List.mem_map.mpr ⟨entry, hmem, heq.symm⟩)

theorem ofEntries_unrejected {entries : List (Slot × E)} {calls : List (E × Bool)}
    (hnodup : (entries.map (·.1)).Nodup) (hlength : entries.length = calls.length) :
    ofEntries (unrejected entries calls) =
      (ofEntries entries).without (rejectedKeys entries calls) := by
  induction entries generalizing calls with
  | nil => rfl
  | cons entry rest ih =>
      cases calls with
      | nil => cases hlength
      | cons call calls =>
          obtain ⟨hfresh, hnodup⟩ := List.nodup_cons.mp hnodup
          have hlength : rest.length = calls.length := Nat.succ.inj hlength
          rw [unrejected_cons, rejectedKeys_cons]
          cases call.2 with
          | true =>
              have hfree : (ofEntries (entry :: rest)).update entry.1 none = ofEntries rest := by
                rw [ofEntries_cons, update, update, Function.update_idem, ← ofEntries_of_notMem hfresh,
                  Function.update_eq_self]
              rw [if_pos rfl, if_pos rfl, without_cons, hfree]
              exact ih hnodup hlength
          | false =>
              have hnotMem : entry.1 ∉ rejectedKeys rest calls := fun hmem =>
                hfresh ((rejectedKeys_sublist hlength).subset hmem)
              rw [if_neg Bool.false_ne_true, if_neg Bool.false_ne_true, ofEntries_cons, ofEntries_cons,
                without_update hnotMem, ih hnodup hlength]

end Table

theorem Pruned.remains?_eq_none {whole : α} {pruned : Pruned α} :
    pruned.remains? whole = none ↔ pruned = .gone := by
  cases pruned <;> simp [Pruned.remains?]

theorem Pruned.eq_of_remains? {whole : α} {left right : Pruned α}
    (hremains : left.remains? whole = right.remains? whole) (hkept : left = .kept ↔ right = .kept) :
    left = right := by
  cases left <;> cases right <;> simp_all [Pruned.remains?]

namespace Node

/-- Frees slots one after another; where nothing is left there is no slot to free. -/
def removeEach : Option (Node E) → List Slot → Checked (Option (Node E))
  | node?, [] => .ok node?
  | some node, slot :: slots => do removeEach (← node.remove slot) slots
  | none, slot :: _ => .error (.slotFree slot)

theorem remains_unique {left right : Option (Node E)} {table : Table E} (hleft : Remains left table)
    (hright : Remains right table) : left = right := by
  cases left with
  | none =>
      rw [show table = Table.empty from hleft] at hright
      exact (eq_none_of_remains_empty hright).symm
  | some node =>
      cases right with
      | none =>
          rw [show table = Table.empty from hright] at hleft
          exact eq_none_of_remains_empty hleft
      | some other => rw [Stores.unique hleft hright]

/-- Each of the slots is still in use when its turn comes, since no slot comes twice. -/
theorem removeEach_ok {node? : Option (Node E)} {table : Table E} {slots : List Slot}
    (hremains : Remains node? table) (hnodup : slots.Nodup)
    (hused : ∀ slot ∈ slots, table slot ≠ none) :
    ∃ rest?, removeEach node? slots = .ok rest? ∧ Remains rest? (table.without slots) := by
  induction slots generalizing node? table with
  | nil => exact ⟨node?, by rw [removeEach], by rwa [Table.without_nil]⟩
  | cons slot slots ih =>
      obtain ⟨hfresh, hnodup⟩ := List.nodup_cons.mp hnodup
      obtain ⟨held, hheld⟩ := Option.ne_none_iff_exists'.mp (hused slot List.mem_cons_self)
      cases node? with
      | none =>
          rw [show table = Table.empty from hremains] at hheld
          cases hheld
      | some node =>
          obtain ⟨rest?, hremove, hrest⟩ := Stores.remove_ok hremains hheld
          have hothers : ∀ other ∈ slots, table.update slot none other ≠ none := by
            intro other hmem
            rw [Table.update_of_ne (ne_of_mem_of_not_mem hmem hfresh)]
            exact hused other (List.mem_cons_of_mem slot hmem)
          rw [removeEach, hremove, Checked.ok_bind, Table.without_cons]
          exact ih hrest hnodup hothers

/-! ### The survivors of a node -/

theorem contains_slotSet (entries : List (Slot × E)) (slot : Slot) :
    (slotSet entries).contains slot = true ↔ ∃ element, (slot, element) ∈ entries := by
  have hfold : ∀ bits : Bitmap,
      (entries.foldl (fun bits entry => bits ||| Bitmap.single entry.1) bits).contains slot = true ↔
        bits.contains slot = true ∨ ∃ element, (slot, element) ∈ entries := by
    induction entries with
    | nil => simp
    | cons entry rest ih =>
        intro bits
        rw [List.foldl_cons, ih, Bitmap.contains_or, Bitmap.contains_single, Bool.or_eq_true,
          decide_eq_true_iff]
        constructor
        · rintro ((hbits | rfl) | ⟨element, hmem⟩)
          · exact Or.inl hbits
          · exact Or.inr ⟨entry.2, List.mem_cons_self⟩
          · exact Or.inr ⟨element, List.mem_cons_of_mem _ hmem⟩
        · rintro (hbits | ⟨element, hmem⟩)
          · exact Or.inl (Or.inl hbits)
          · rcases List.mem_cons.mp hmem with rfl | hrest
            · exact Or.inl (Or.inr rfl)
            · exact Or.inr ⟨element, hrest⟩
  rw [slotSet, hfold, Bitmap.contains_zero]
  simp

theorem marks_slotSet {entries : List (Slot × E)}
    (hsorted : entries.Pairwise fun left right => left.1 < right.1) :
    (slotSet entries).Marks (Table.ofEntries entries) := by
  intro slot
  rw [Bool.eq_iff_iff, contains_slotSet, Option.isSome_iff_exists]
  simp only [Table.ofEntries_eq_some hsorted]

theorem ofSurvivors_slotSet {entries : List (Slot × E)}
    (hsorted : entries.Pairwise fun left right => left.1 < right.1) :
    ∃ rest?, ofSurvivors (slotSet entries) (entries.map (·.2)) = .ok rest? ∧
      Remains rest? (Table.ofEntries entries) := by
  have hkept := ofSurvivors_ok (marks_slotSet hsorted)
  rwa [← Table.map_snd_entries, Table.entries_ofEntries hsorted] at hkept

theorem filter_slotSet {node : Node E} (hwf : node.WellFormed) {survivors : List (Slot × E)}
    (hsublist : survivors.Sublist node.entries) :
    (node.entries.filter fun entry => (slotSet survivors).contains entry.1) = survivors := by
  have hsorted := hwf.stores.pairwise_entries
  refine ascending_ext (fun entry => entry.1.val) (hsorted.filter _) (hsorted.sublist hsublist) ?_
  intro entry
  rw [List.mem_filter, contains_slotSet]
  constructor
  · rintro ⟨hentry, element, hmarked⟩
    have helement := hwf.mem_entries.mp (hsublist.subset hmarked)
    rw [hwf.mem_entries.mp hentry] at helement
    rwa [← Option.some.inj helement] at hmarked
  · intro hmem
    exact ⟨hsublist.subset hmem, entry.2, hmem⟩

theorem slotSet_eq_occupancy_iff {node : Node E} (hwf : node.WellFormed)
    {survivors : List (Slot × E)} (hsublist : survivors.Sublist node.entries) :
    slotSet survivors = node.occupancy ↔ survivors = node.entries := by
  constructor
  · intro hmarked
    rw [← filter_slotSet hwf hsublist, hmarked, List.filter_eq_self]
    intro entry hentry
    rw [hwf.stores.marks, hwf.mem_entries.mp hentry, Option.isSome_some]
  · rintro rfl
    refine Bitmap.ext fun slot => ?_
    rw [Bool.eq_iff_iff, contains_slotSet, hwf.stores.marks, Option.isSome_iff_exists]
    simp only [hwf.mem_entries]

/-! ### What a test leaves -/

section Test

variable (test : E → σ → Bool × σ)

theorem pruneEntries_test (entries : List (Slot × E)) (state : σ) :
    pruneEntries (fun element state =>
        .ok (if (test element state).1 then .gone else .kept, (test element state).2)) entries state =
      .ok (⟨(sieve test entries state).1,
        (callsOn test (entries.map (·.2)) state).all fun call => !call.2⟩,
        (sieve test entries state).2) := by
  induction entries generalizing state with
  | nil => rfl
  | cons entry rest ih =>
      simp only [pruneEntries, ih, Checked.ok_bind, Checked.pure_eq, sieve, List.map_cons, callsOn,
        List.all_cons]
      cases (test entry.2 state).1 <;> rfl

/-- The pass over the entries that asks the test for each of them, and marks those that it lets pass. -/
def markSurvivors (entries : List (Slot × E)) (marked : Bitmap × σ) : Bitmap × σ :=
  entries.foldl
    (fun marked entry =>
      let (rejected, state) := test entry.2 marked.2
      (if rejected then marked.1 else marked.1 ||| .single entry.1, state))
    marked

/-- Removal in two passes, of which the second copies the marked elements and asks the test no more. -/
def removeMarked (node : Node E) (state : σ) : Checked (Pruned (Node E) × σ) := do
  let (bits, state) := markSurvivors test node.entries (0, state)
  if bits = node.occupancy then
    return (.kept, state)
  match ← ofSurvivors bits ((node.entries.filter fun entry => bits.contains entry.1).map (·.2)) with
  | some rest => return (.cut rest, state)
  | none => return (.gone, state)

theorem markSurvivors_eq (entries : List (Slot × E)) (state : σ) :
    markSurvivors test entries (0, state) =
      (slotSet (sieve test entries state).1, (sieve test entries state).2) := by
  suffices hfold : ∀ bits : Bitmap, markSurvivors test entries (bits, state) =
      ((sieve test entries state).1.foldl (fun bits entry => bits ||| Bitmap.single entry.1) bits,
        (sieve test entries state).2) from hfold 0
  intro bits
  induction entries generalizing bits state with
  | nil => rfl
  | cons entry rest ih =>
      simp only [markSurvivors, List.foldl_cons, sieve] at ih ⊢
      rw [ih]
      cases (test entry.2 state).1 <;> rfl

theorem removeAll_eq (node : Node E) (state : σ) :
    node.removeAll test state = node.prune (fun element state =>
      .ok (if (test element state).1 then .gone else .kept, (test element state).2)) state := rfl

theorem removeAll_eq_removeMarked {node : Node E} (hwf : node.WellFormed) (state : σ) :
    node.removeAll test state = removeMarked test node state := by
  have hsublist := sieve_sublist test node.entries state
  have hkept : slotSet (sieve test node.entries state).1 = node.occupancy ↔
      ((callsOn test (node.entries.map (·.2)) state).all fun call => !call.2) = true := by
    rw [slotSet_eq_occupancy_iff hwf hsublist, sieve_eq_self_iff]
    simp
  simp only [removeAll_eq, Node.prune, pruneEntries_test, removeMarked, markSurvivors_eq,
    filter_slotSet hwf hsublist, Checked.ok_bind, Checked.pure_eq]
  exact if_congr hkept.symm rfl rfl

theorem removeAll_ok {node : Node E} (hwf : node.WellFormed) (state : σ) :
    ∃ verdict, node.removeAll test state = .ok (verdict, (sieve test node.entries state).2) ∧
      Remains (verdict.remains? node) (Table.ofEntries (sieve test node.entries state).1) ∧
      (verdict = .kept ↔ ∀ call ∈ callsOn test (node.entries.map (·.2)) state, call.2 = false) := by
  have hstores := hwf.stores
  have hsublist := sieve_sublist test node.entries state
  have hmarked := slotSet_eq_occupancy_iff hwf hsublist
  rw [removeAll_eq_removeMarked test hwf, ← sieve_eq_self_iff]
  simp only [removeMarked, markSurvivors_eq, filter_slotSet hwf hsublist]
  by_cases hself : (sieve test node.entries state).1 = node.entries
  · refine ⟨.kept, ?_, ?_, iff_of_true rfl hself⟩
    · rw [if_pos (hmarked.mpr hself), Checked.pure_eq]
    · rw [hself, hstores.entries_eq, Table.ofEntries_entries]
      exact hstores
  · obtain ⟨rest?, hrest, hremains⟩ :=
      ofSurvivors_slotSet (hstores.pairwise_entries.sublist hsublist)
    rw [if_neg (mt hmarked.mp hself), hrest, Checked.ok_bind]
    cases rest? with
    | none => exact ⟨.gone, rfl, hremains, iff_of_false nofun hself⟩
    | some rest => exact ⟨.cut rest, rfl, hremains, iff_of_false nofun hself⟩

theorem removeAll_recorded {node : Node E} (hwf : node.WellFormed) (state : σ) :
    ∃ verdict last, node.removeAll test state = .ok (verdict, last) ∧
      node.removeAll (recorded test) (state, []) =
        .ok (verdict, last, callsOn test (node.entries.map (·.2)) state) := by
  obtain ⟨verdict, hremove, hremains, hkept⟩ := removeAll_ok test hwf state
  obtain ⟨other, hrecord, hrecorded, hotherKept⟩ := removeAll_ok (recorded test) hwf (state, [])
  rw [sieve_recorded] at hrecord hrecorded
  rw [callsOn_recorded] at hotherKept
  have hverdict : other = verdict :=
    Pruned.eq_of_remains? (remains_unique hrecorded hremains) (hotherKept.trans hkept.symm)
  rw [hverdict, List.nil_append] at hrecord
  exact ⟨verdict, _, hremove, hrecord⟩

end Test

/-! ### What the calls decide -/

/-- What the calls of a test, one for every element of a node in slot order, decide about what the
test leaves of the node. -/
structure Culled (node : Node E) (calls : List (E × Bool)) (verdict : Pruned (Node E)) : Prop where
  ascending : node.entries.Pairwise fun left right => left.1 < right.1
  mem_entries : ∀ slot element, (slot, element) ∈ node.entries ↔ node.get? slot = .ok (some element)
  asked : calls.map (·.1) = node.entries.map (·.2)
  gone : verdict = .gone ↔ ∀ call ∈ calls, call.2 = true
  kept : verdict = .kept ↔ ∀ call ∈ calls, call.2 = false
  stepwise : ∀ slots, slots.Perm (rejectedKeys node.entries calls) →
    removeEach (some node) slots = .ok (verdict.remains? node)

section Calls

variable {node : Node E} {calls : List (E × Bool)} {rest? : Option (Node E)}

theorem eq_none_iff_all_rejected (hwf : node.WellFormed) (hlength : node.entries.length = calls.length)
    (hremains : Remains rest? (Table.ofEntries (unrejected node.entries calls))) :
    rest? = none ↔ ∀ call ∈ calls, call.2 = true := by
  have hsorted := hwf.stores.pairwise_entries.sublist (unrejected_sublist hlength)
  calc rest? = none
      ↔ Table.ofEntries (unrejected node.entries calls) = Table.empty :=
        (Stores.yields_of_remains hremains).1
    _ ↔ unrejected node.entries calls = [] := Table.ofEntries_eq_empty hsorted
    _ ↔ ∀ call ∈ calls, call.2 = true := unrejected_eq_nil_iff hlength

/-- Freeing the rejected slots in turn leaves the node of the table without them. -/
theorem removeEach_rejected (hwf : node.WellFormed) (hlength : node.entries.length = calls.length)
    (hremains : Remains rest? (Table.ofEntries (unrejected node.entries calls)))
    {slots : List Slot} (hperm : slots.Perm (rejectedKeys node.entries calls)) :
    removeEach (some node) slots = .ok rest? := by
  have hstores := hwf.stores
  have hrejected := rejectedKeys_sublist hlength
  have hnodup : (node.entries.map (·.1)).Nodup :=
    nodup_keys_of_ascending Fin.val hstores.pairwise_entries
  have hused : ∀ slot ∈ slots, node.find slot ≠ none := by
    intro slot hslot
    obtain ⟨entry, hentry, rfl⟩ := List.mem_map.mp (hrejected.subset (hperm.subset hslot))
    exact Option.ne_none_iff_exists'.mpr ⟨entry.2, hwf.mem_entries.mp hentry⟩
  -- The order of the slots is lost here: the table without them is the same for every order.
  have htable : Table.ofEntries (unrejected node.entries calls) = node.find.without slots := by
    rw [Table.ofEntries_unrejected hnodup hlength, ← Table.without_perm hperm, hstores.entries_eq,
      Table.ofEntries_entries]
  rw [htable] at hremains
  obtain ⟨freed?, hfreed, hleft⟩ := removeEach_ok (show Remains (some node) node.find from hstores)
    (hperm.nodup_iff.mpr (hnodup.sublist hrejected)) hused
  rw [hfreed, remains_unique hleft hremains]

theorem culled (hwf : node.WellFormed) (test : E → σ → Bool × σ) {state last : σ}
    {verdict : Pruned (Node E)} (hremove : node.removeAll test state = .ok (verdict, last)) :
    node.Culled (callsOn test (node.entries.map (·.2)) state) verdict := by
  obtain ⟨other, hother, hremains, hkept⟩ := removeAll_ok test hwf state
  rw [hremove] at hother
  cases hother
  have hasked := map_fst_callsOn test (node.entries.map (·.2)) state
  have hlength := length_callsOn_map test node.entries state
  rw [sieve_eq_unrejected] at hremains
  refine ⟨hwf.stores.pairwise_entries, ?_, hasked, ?_, hkept,
    fun slots hperm => removeEach_rejected hwf hlength hremains hperm⟩
  · intro slot element
    rw [hwf.mem_entries, hwf.stores.get?_eq, Except.ok.injEq]
  · rw [← Pruned.remains?_eq_none]
    exact eq_none_iff_all_rejected hwf hlength hremains

end Calls

/-- **Removal by a test.** The test sees every element of a node once, in slot order, and the node that
it leaves is the one that remains when the rejected slots are freed in turn, in any order. -/
theorem removeAll_stepwise {node : Node E} (hwf : node.WellFormed) (test : E → σ → Bool × σ)
    (state : σ) :
    ∃ calls verdict last, calls = callsOn test (node.entries.map (·.2)) state ∧
      node.removeAll test state = .ok (verdict, last) ∧
      node.removeMarked test state = .ok (verdict, last) ∧
      node.removeAll (recorded test) (state, []) = .ok (verdict, last, calls) ∧
      node.Culled calls verdict := by
  obtain ⟨verdict, last, hremove, hrecord⟩ := removeAll_recorded test hwf state
  have hmarked := (removeAll_eq_removeMarked test hwf state).symm.trans hremove
  exact ⟨_, verdict, last, rfl, hremove, hmarked, hrecord, culled hwf test hremove⟩

/-- Of three elements the first and the last are rejected, and a node with one element is left. -/
theorem removeAll_first_and_third :
    let node : Node Nat := .bitmap 164 [1, 2, 3]
    let test : Nat → Bool → Bool × Bool := fun _ odd => (!odd, !odd)
    node.WellFormed ∧ node.removeAll test false = .ok (.cut (.one 5 2), true) ∧
      ∃ calls verdict last, calls = callsOn test (node.entries.map (·.2)) false ∧
        node.removeAll test false = .ok (verdict, last) ∧
        node.removeMarked test false = .ok (verdict, last) ∧
        node.removeAll (recorded test) (false, []) = .ok (verdict, last, calls) ∧
        node.Culled calls verdict := by
  intro node test
  have hwf : node.WellFormed := ⟨by decide, by decide, by decide⟩
  exact ⟨hwf, by decide, removeAll_stepwise hwf test false⟩

end Node

end RadixMap
