import Mathlib
import RadixMap.Proofs.History
import RadixMap.Proofs.Readers

/-!
# Enumeration

A map is enumerated in two ways: a traversal goes through the whole trie at once, and a cursor gives
one value for each call. The traversal lists what lookups answer, each key once and in the order of the
addresses, and the cursor gives the values of that list, however many calls are made of it.
-/

namespace RadixMap

open Address

variable {V : Type}

namespace IntMap

variable {map : IntMap V}

/-- **Traversal agrees with lookup.** A traversal lists each key of a map once, with the value that a
lookup gives, in ascending order of the addresses. -/
theorem reachable_entries (hmap : map.Reachable) :
    ∃ entries, map.entries = .ok entries ∧
      (entries.Pairwise fun left right => (ofKey left.1).toNat < (ofKey right.1).toNat) ∧
      entries.length = map.size ∧
      ∀ key value, (key, value) ∈ entries ↔ map.get? key = .ok (some value) := by
  have hsound := hmap.sound
  refine ⟨_, hsound.entries_eq, ?_, ?_, ?_⟩
  · rw [List.pairwise_map]
    exact hsound.pairwise_addressed
  · rw [List.length_map, ← hsound.size_eq_length]
  · intro key value
    rw [hsound.get?_eq, Except.ok.injEq, ← hsound.mem_addressed, List.mem_map]
    constructor
    · rintro ⟨entry, hentry, heq⟩
      cases heq
      exact hentry
    · intro hentry
      exact ⟨(ofKey key, value), hentry, by rw [toKey, ofKey, Int32.toInt32_toUInt32]⟩

/-- Two negative keys, one of which only the staged leaf has, are listed after a key of another block. -/
theorem entries_of_negative_keys :
    let target : Leaf Nat := ⟨1, .one 31 1⟩
    let high : Trie Nat := .branch (.one 31 (.branch (.one 31 (.branch (.one 31 (.branch (.one 31
      (.branch (.one 31 (.leaf target))))))))))
    let root : Trie Nat := .branch (.bitmap 9 [(Trie.leaf ⟨0, .one 5 0⟩).lift 5, high])
    let map : IntMap Nat :=
      ⟨3, 6, some root, some ⟨0xFFFFFFFF, target, ⟨2, .bitmap 0xC0000000 [2, 1]⟩⟩, 3⟩
    map.Reachable ∧ map.entries = .ok [(5, 0), (-2, 2), (-1, 1)] ∧
      ∃ entries, map.entries = .ok entries ∧
        (entries.Pairwise fun left right => (ofKey left.1).toNat < (ofKey right.1).toNat) ∧
        entries.length = map.size ∧
        ∀ key value, (key, value) ∈ entries ↔ map.get? key = .ok (some value) := by
  intro target high root map
  have hmap : map.Reachable :=
    .step (.insert (-2) 2) (.step (.ofList [(5, 0), (-1, 1)]) .empty rfl) rfl
  exact ⟨hmap, by decide, reachable_entries hmap⟩

end IntMap

namespace Cursor

variable {cursor : Cursor V} {pending : List V}

/-- What calls of `next` return, the first call's answer first. -/
def returned : Nat → Cursor V → Checked (List (Option V))
  | 0, _ => .ok []
  | calls + 1, cursor => do
    let (value?, rest) ← cursor.next
    return value? :: (← returned calls rest)

/-- The calls return what is pending and, when that is used up, nothing. -/
theorem returned_eq (hyields : cursor.Yields pending) (calls : Nat) :
    returned calls cursor = .ok ((pending.take calls).map some ++
      List.replicate (calls - pending.length) none) := by
  induction calls generalizing cursor pending with
  | zero =>
      rw [returned, List.take_zero, Nat.zero_sub]
      rfl
  | succ calls ih =>
      obtain ⟨rest, hnext, hrest⟩ := next_ok hyields
      simp only [returned, hnext, ih hrest, Checked.ok_bind, Checked.pure_eq]
      cases pending with
      | nil =>
          rw [List.tail_nil, List.take_nil, List.take_nil, List.length_nil, Nat.sub_zero,
            Nat.sub_zero, List.replicate_succ]
          rfl
      | cons value values =>
          rw [List.head?_cons, List.tail_cons, List.take_succ_cons, List.length_cons,
            Nat.add_sub_add_right]
          rfl

end Cursor

namespace IntMap

variable {map : IntMap V}

/-- **The cursor refines the traversal.** After any number of calls a cursor has given as many values
of the traversal, in its order, and announces how many are left; after the last it gives nothing. The
values all together are those of the traversal. -/
theorem reachable_cursor (hmap : map.Reachable) :
    ∃ entries cursor, map.entries = .ok entries ∧ map.cursor = .ok cursor ∧
      (∀ calls, ∃ later,
        cursor.returned calls = .ok ((entries.take (min calls map.size)).map
          (fun entry => some entry.2) ++ List.replicate (calls - map.size) none) ∧
        cursor.advance calls = .ok later ∧
        later.remaining = map.size - min calls map.size ∧
        later.sizeBounds = (map.size - min calls map.size, some (map.size - min calls map.size))) ∧
      cursor.toList = .ok (entries.map (·.2)) ∧ map.values = .ok (entries.map (·.2)) := by
  have hsound := hmap.sound
  obtain ⟨cursor, hcursor, hyields⟩ := hsound.cursor_ok
  rw [← map_snd_keyed] at hyields
  have hlength : (map.keyed.map (·.2)).length = map.size := by
    rw [map_snd_keyed, List.length_map, ← hsound.size_eq_length]
  refine ⟨_, cursor, hsound.entries_eq, hcursor, fun calls => ?_, Cursor.toList_ok hyields, ?_⟩
  · obtain ⟨later, hadvance, hlater⟩ := Cursor.advance_ok hyields calls
    have hremaining : later.remaining = map.size - min calls map.size := by
      rw [hlater.remaining, List.length_drop, hlength]
      omega
    refine ⟨later, ?_, hadvance, hremaining, by rw [Cursor.sizeBounds, hremaining]⟩
    rw [Cursor.returned_eq hyields, hlength, List.take_eq_take_min, hlength, ← List.map_take,
      List.map_map]
    rfl
  · rw [hsound.values_eq, ← map_snd_keyed]
    rfl

theorem cursor_of_diverged :
    let target : Leaf Nat := ⟨1, .one 6 1⟩
    let root : Trie Nat := .branch (.bitmap 5 [.leaf ⟨0, .one 3 0⟩, .leaf target])
    let map : IntMap Nat := ⟨3, 1, some root, some ⟨95, target, ⟨2, .bitmap 192 [1, 2]⟩⟩, 3⟩
    map.Reachable ∧
      ∃ entries cursor, map.entries = .ok entries ∧ map.cursor = .ok cursor ∧
        (∀ calls, ∃ later,
          cursor.returned calls = .ok ((entries.take (min calls map.size)).map
            (fun entry => some entry.2) ++ List.replicate (calls - map.size) none) ∧
          cursor.advance calls = .ok later ∧
          later.remaining = map.size - min calls map.size ∧
          later.sizeBounds =
            (map.size - min calls map.size, some (map.size - min calls map.size))) ∧
        cursor.toList = .ok (entries.map (·.2)) ∧ map.values = .ok (entries.map (·.2)) := by
  intro target root map
  have hmap : map.Reachable :=
    .step (.insert 71 2) (.step (.ofList [(3, 0), (70, 1)]) .empty rfl) rfl
  exact ⟨hmap, reachable_cursor hmap⟩

end IntMap

end RadixMap
