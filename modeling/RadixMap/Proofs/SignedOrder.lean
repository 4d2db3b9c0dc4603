import Mathlib
import RadixMap.Proofs.History
import RadixMap.Proofs.Readers

/-!
# Entries in the order of the keys

Sorted by their keys, the entries of a traversal are a normal form of what the map holds: each key
stands there once, with its value, after the keys below it.
-/

namespace RadixMap

open Address

variable {V : Type}

namespace IntMap.Sound

variable {map left right : IntMap V}

theorem nodup_keyed (hsound : map.Sound) : (map.keyed.map (·.1)).Nodup :=
  nodup_keys_of_ascending (fun key => (ofKey key).toNat) hsound.pairwise_keyed

theorem sortedEntries_eq (hsound : map.Sound) :
    map.sortedEntries = .ok (map.keyed.mergeSort fun left right => left.1 ≤ right.1) := by
  rw [sortedEntries, hsound.entries_eq, Checked.ok_bind, Checked.pure_eq, keyed]

theorem mem_sortedEntries (hsound : map.Sound) {entries : List (Int32 × V)}
    (hentries : map.sortedEntries = .ok entries) (key : Int32) (value : V) :
    (key, value) ∈ entries ↔ map.contents (ofKey key) = some value := by
  rw [hsound.sortedEntries_eq, Except.ok.injEq] at hentries
  rw [← hentries, List.mem_mergeSort, hsound.mem_keyed]

theorem pairwise_sortedEntries (hsound : map.Sound) {entries : List (Int32 × V)}
    (hentries : map.sortedEntries = .ok entries) :
    entries.Pairwise fun left right => left.1 < right.1 := by
  rw [hsound.sortedEntries_eq, Except.ok.injEq] at hentries
  have hsorted : entries.Pairwise fun left right => left.1 ≤ right.1 := by
    have htrans : ∀ first second third : Int32 × V, decide (first.1 ≤ second.1) →
        decide (second.1 ≤ third.1) → decide (first.1 ≤ third.1) := fun _ _ _ hfirst hsecond =>
      decide_eq_true (Int32.le_trans (of_decide_eq_true hfirst) (of_decide_eq_true hsecond))
    have htotal : ∀ left right : Int32 × V,
        decide (left.1 ≤ right.1) || decide (right.1 ≤ left.1) := by
      intro left right
      simpa using Int32.le_total left.1 right.1
    have hpairwise := List.pairwise_mergeSort htrans htotal map.keyed
    rw [hentries] at hpairwise
    exact hpairwise.imp of_decide_eq_true
  have hperm : entries.Perm map.keyed := hentries ▸ List.mergeSort_perm map.keyed _
  have hnodup : (entries.map (·.1)).Nodup := (hperm.map _).nodup_iff.mpr hsound.nodup_keyed
  exact (hsorted.and (List.pairwise_map.mp hnodup)).imp fun hboth =>
    Int32.lt_of_le_of_ne hboth.1 hboth.2

theorem sortedEntries_congr (hleft : left.Sound) (hright : right.Sound)
    (hcontents : left.contents = right.contents) : left.sortedEntries = right.sortedEntries := by
  have haddressed : left.addressed = right.addressed :=
    hleft.addressed_eq hright.pairwise_addressed fun address value => by
      rw [hright.mem_addressed, hcontents]
  rw [hleft.sortedEntries_eq, hright.sortedEntries_eq, keyed, keyed, haddressed]

/-- The entries in the order of the keys are a normal form. -/
theorem sortedEntries_eq_iff (hleft : left.Sound) (hright : right.Sound) :
    left.sortedEntries = right.sortedEntries ↔ left.contents = right.contents := by
  refine ⟨fun hsame => ?_, hleft.sortedEntries_congr hright⟩
  obtain ⟨entries, hentries⟩ := hleft.sortedEntries_ok
  funext address
  apply Option.ext
  intro value
  calc left.contents address = some value ↔ (address.toKey, value) ∈ entries :=
        (hleft.mem_sortedEntries hentries address.toKey value).symm
    _ ↔ right.contents address = some value :=
        hright.mem_sortedEntries (hsame ▸ hentries) address.toKey value

/-- So is any text that tells the entries in the order of the keys from one another. -/
theorem text_eq_iff (hleft : left.Sound) (hright : right.Sound) {text : IntMap V → Checked String}
    {write : List (Int32 × V) → List Char} (hwrite : Function.Injective write)
    (htext : ∀ {map : IntMap V} {entries : List (Int32 × V)}, map.sortedEntries = .ok entries →
      text map = .ok (String.ofList (write entries))) :
    text left = text right ↔ left.contents = right.contents := by
  rw [← hleft.sortedEntries_eq_iff hright]
  obtain ⟨leftEntries, hleftEntries⟩ := hleft.sortedEntries_ok
  obtain ⟨rightEntries, hrightEntries⟩ := hright.sortedEntries_ok
  rw [htext hleftEntries, htext hrightEntries, hleftEntries, hrightEntries, Except.ok.injEq,
    Except.ok.injEq, String.ofList_inj, hwrite.eq_iff]

end IntMap.Sound

end RadixMap
