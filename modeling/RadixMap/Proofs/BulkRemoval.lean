import Mathlib
import RadixMap.Proofs.History
import RadixMap.Proofs.Journal

/-!
# Bulk removal

A bulk removal asks its test about every value of a map once, in the order of a traversal, and keeps
the entries that the test does not reject. A test that remembers more, but gives the same answers,
leaves the same map; so a test that also writes its calls down does, and its record tells which calls
there were.
-/

namespace RadixMap

open Address

variable {V σ τ : Type}

/-- The first test answers like the second one and remembers what the second one does, and more. -/
def Extends (more : V → τ → Bool × τ) (test : V → σ → Bool × σ) (forget : τ → σ) : Prop :=
  ∀ value memory, test value (forget memory) = Prod.map id forget (more value memory)

theorem extends_recorded (test : V → σ → Bool × σ) : Extends (recorded test) test Prod.fst :=
  fun _ _ => rfl

namespace Node

variable {E : Type} {forget : τ → σ}

theorem pruneEntries_forget {prune : E → σ → Checked (Pruned E × σ)}
    {more : E → τ → Checked (Pruned E × τ)}
    (hextends : ∀ element memory,
      prune element (forget memory) = Prod.map id forget <$> more element memory)
    (entries : List (Slot × E)) (memory : τ) :
    pruneEntries prune entries (forget memory) =
      Prod.map id forget <$> pruneEntries more entries memory := by
  induction entries generalizing memory with
  | nil => rfl
  | cons entry rest ih =>
      rw [pruneEntries, pruneEntries, hextends]
      cases more entry.2 memory with
      | error fault => rfl
      | ok result =>
          obtain ⟨verdict, later⟩ := result
          simp only [Checked.map_ok, Checked.ok_bind, Prod.map_apply, id_eq, ih]
          cases pruneEntries more rest later <;> rfl

theorem prune_forget {prune : E → σ → Checked (Pruned E × σ)}
    {more : E → τ → Checked (Pruned E × τ)}
    (hextends : ∀ element memory,
      prune element (forget memory) = Prod.map id forget <$> more element memory)
    (node : Node E) (memory : τ) :
    node.prune prune (forget memory) = Prod.map id forget <$> node.prune more memory := by
  rw [Node.prune, Node.prune, pruneEntries_forget hextends]
  cases pruneEntries more node.entries memory with
  | error fault => rfl
  | ok result =>
      obtain ⟨survivors, later⟩ := result
      simp only [Checked.map_ok, Checked.ok_bind, Prod.map_apply, id_eq]
      split
      · rfl
      · cases ofSurvivors (slotSet survivors.entries) (survivors.entries.map (·.2)) with
        | error fault => rfl
        | ok rest? => cases rest? <;> rfl

theorem removeAll_forget {more : V → τ → Bool × τ} {test : V → σ → Bool × σ}
    (hextends : Extends more test forget) (node : Node V) (memory : τ) :
    node.removeAll test (forget memory) = Prod.map id forget <$> node.removeAll more memory := by
  refine prune_forget (fun value memory => ?_) node memory
  rw [hextends]
  rfl

end Node

theorem Trie.prune_forget {forget : τ → σ} {more : V → τ → Bool × τ} {test : V → σ → Bool × σ}
    (hextends : Extends more test forget) (level : Nat) (trie : Trie V) (memory : τ × Nat) :
    trie.prune test level (Prod.map forget id memory) =
      Prod.map id (Prod.map forget id) <$> trie.prune more level memory := by
  have hleaf : ∀ (held : Leaf V) (level : Nat) (memory : τ × Nat),
      (leaf held).prune test level (Prod.map forget id memory) =
        Prod.map id (Prod.map forget id) <$> (leaf held).prune more level memory := by
    intro held level memory
    rw [prune, prune, Prod.map_apply, Node.removeAll_forget hextends]
    cases held.node.removeAll more memory.1 <;> rfl
  induction level generalizing trie memory with
  | zero =>
      cases trie with
      | leaf held => exact hleaf held 0 memory
      | branch node => rfl
  | succ level ih =>
      cases trie with
      | leaf held => exact hleaf held (level + 1) memory
      | branch node =>
          rw [prune, prune, Node.prune_forget fun child memory => ih child memory]
          cases node.prune (prune more level) memory <;> rfl

theorem IntMap.removeAll_forget {forget : τ → σ} {more : V → τ → Bool × τ} {test : V → σ → Bool × σ}
    (hextends : Extends more test forget) (map : IntMap V) (memory : τ) :
    map.removeAll test (forget memory) = Prod.map id forget <$> map.removeAll more memory := by
  rw [removeAll, removeAll]
  cases map.mergedRoot with
  | error fault => rfl
  | ok merged =>
      obtain ⟨root?, merges⟩ := merged
      cases root? with
      | none => rfl
      | some root =>
          have hprune := Trie.prune_forget hextends map.rootLevel root (memory, map.fresh)
          rw [Prod.map_apply, id_eq] at hprune
          simp only [Checked.ok_bind, hprune]
          cases root.prune more map.rootLevel (memory, map.fresh) with
          | error fault => rfl
          | ok pruned =>
              obtain ⟨verdict, later, fresh⟩ := pruned
              simp only [Checked.map_ok, Checked.ok_bind, Prod.map_apply, id_eq]
              cases verdict.remains? root with
              | none => rfl
              | some rest =>
                  simp only
                  cases (rest.lower map.rootLevel).2.1.count (rest.lower map.rootLevel).1 <;> rfl

namespace IntMap

variable {map : IntMap V}

namespace Sound

variable (hsound : map.Sound)

include hsound

theorem addressed_removeAll {revision : Revision V} {test : V → σ → Bool × σ} {state last : σ}
    (hremove : map.removeAll test state = .ok (revision, last)) :
    revision.map.addressed = (sieve test map.addressed state).1 := by
  obtain ⟨kept, hkept, hafter, -, hcontents, -⟩ := hsound.removeAll_ok test state
  rw [hremove] at hkept
  cases hkept
  have hsorted := hsound.pairwise_addressed.sublist (sieve_sublist test map.addressed state)
  exact hafter.addressed_eq hsorted fun address value => (hcontents address value).symm

theorem keyed_removeAll {revision : Revision V} {test : V → σ → Bool × σ} {state last : σ}
    (hremove : map.removeAll test state = .ok (revision, last)) :
    revision.map.keyed = unrejected map.keyed (callsOn test (map.keyed.map (·.2)) state) := by
  calc revision.map.keyed
      = (sieve test map.addressed state).1.map fun entry => (entry.1.toKey, entry.2) := by
        rw [keyed, hsound.addressed_removeAll hremove]
    _ = (sieve test map.keyed state).1 := by rw [keyed, sieve_map]
    _ = unrejected map.keyed (callsOn test (map.keyed.map (·.2)) state) :=
        sieve_eq_unrejected test map.keyed state

end Sound

/-- What a bulk removal leaves of a map with the given entries, told by the calls of its test. -/
structure Sifted (map : IntMap V) (entries : List (Int32 × V)) (calls : List (V × Bool))
    (after : IntMap V) : Prop where
  asked : calls.map (·.1) = entries.map (·.2)
  remaining : after.entries = .ok (unrejected entries calls)
  size : after.size = (unrejected entries calls).length
  staging : after.staging = none
  fitted : after.Fitted
  of_all_rejected : unrejected entries calls = [] → after = empty
  of_none_rejected : (∀ call ∈ calls, call.2 = false) →
    after.rootLevel = map.rootLevel ∧ ∃ merges, map.mergedRoot = .ok (after.root, merges)

namespace Sound

variable (hsound : map.Sound) (test : V → σ → Bool × σ) (state : σ)

include hsound

/-- The test that writes its calls down removes what the test removes. -/
theorem removeAll_recorded :
    ∃ revision last, map.removeAll test state = .ok (revision, last) ∧
      map.removeAll (recorded test) (state, []) =
        .ok (revision, last, callsOn test (map.keyed.map (·.2)) state) := by
  obtain ⟨revision, hrecord, -⟩ := hsound.removeAll_ok (recorded test) (state, [])
  rw [sieve_recorded, List.nil_append, ← map_snd_keyed] at hrecord
  have hremove := removeAll_forget (extends_recorded test) map (state, [])
  rw [hrecord] at hremove
  exact ⟨revision, _, hremove, hrecord⟩

theorem sifted {revision : Revision V} {last : σ}
    (hremove : map.removeAll test state = .ok (revision, last)) :
    map.Sifted map.keyed (callsOn test (map.keyed.map (·.2)) state) revision.map := by
  obtain ⟨kept, hkept, hafter, hstaging, -, hsame⟩ := hsound.removeAll_ok test state
  rw [hremove] at hkept
  cases hkept
  have hpassed := hsound.keyed_removeAll hremove
  have hsize : revision.map.size = revision.map.keyed.length := by
    rw [keyed, List.length_map, hafter.size_eq_length]
  refine ⟨map_fst_callsOn test _ state, ?remaining, ?size, hstaging, hafter.fitted, ?rejected,
    ?unchanged⟩
  case remaining => rw [← hpassed, hafter.entries_eq, keyed]
  case size => rw [← hpassed, hsize]
  case rejected =>
    intro hnone
    rw [← hpassed] at hnone
    rw [hnone] at hsize
    exact hafter.empty_of_root (hafter.root_eq_none_iff.mpr hsize)
  case unchanged =>
    intro haccepted
    rw [map_snd_keyed] at haccepted
    exact hsame ((sieve_eq_self_iff test).mpr haccepted)

end Sound

/-- **Bulk removal.** The test is called once for every entry of a map that steps make, in the order of
a traversal, and the entries that it lets pass are left. -/
theorem reachable_removeAll (hmap : map.Reachable) (test : V → σ → Bool × σ) (state : σ) :
    ∃ entries calls revision last, map.entries = .ok entries ∧
      calls = callsOn test (entries.map (·.2)) state ∧
      map.removeAll test state = .ok (revision, last) ∧
      map.removeAll (recorded test) (state, []) = .ok (revision, last, calls) ∧
      map.Sifted entries calls revision.map := by
  have hsound := hmap.sound
  obtain ⟨revision, last, hremove, hrecord⟩ := hsound.removeAll_recorded test state
  exact ⟨map.keyed, _, revision, last, hsound.entries_eq, rfl, hremove, hrecord,
    hsound.sifted test state hremove⟩

/-- Every second call rejects: of the staged block the second value goes, which the trie never had. -/
theorem removeAll_every_second :
    let root : Trie Nat := .branch (.bitmap 5 [.leaf ⟨0, .one 3 0⟩, .leaf ⟨1, .one 6 1⟩])
    let map : IntMap Nat :=
      ⟨3, 1, some root, some ⟨95, ⟨1, .one 6 1⟩, ⟨2, .bitmap 192 [1, 2]⟩⟩, 3⟩
    let test : Nat → Bool → Bool × Bool := fun _ odd => (!odd, !odd)
    map.Reachable ∧ ∃ entries calls revision last, map.entries = .ok entries ∧
      calls = callsOn test (entries.map (·.2)) false ∧
      map.removeAll test false = .ok (revision, last) ∧
      map.removeAll (recorded test) (false, []) = .ok (revision, last, calls) ∧
      map.Sifted entries calls revision.map := by
  intro root map test
  have hmap : map.Reachable :=
    .step (.insert 71 2) (.step (.ofList [(3, 0), (70, 1)]) .empty rfl) rfl
  exact ⟨hmap, reachable_removeAll hmap test false⟩

end IntMap

end RadixMap
