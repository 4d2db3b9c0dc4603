import Mathlib
import RadixMap.Proofs.Outcomes
import RadixMap.Proofs.QuotedText

/-!
# The journal of a write

The events that a write records are told by the map before it, its key, and the size and level of the
result: the staged block is brought into the trie once, by the first write outside it, and the root
rises and sinks with the largest key. Each event is one line of the journal, from whose words it can be
told.
-/

namespace RadixMap

open Address

variable {V : Type}

/-! ### Lines -/

namespace Event

open Numeral

/-- The hexadecimal digits of a word after their mark. -/
def hex (word : Address) : String :=
  "0x" ++ String.ofList (Nat.toDigits 16 word.toNat)

/-- The words of the line: the severity, what took place, and the numbers that the event names. -/
def words : Event → List String
  | grew fromLevel toLevel key =>
    ["TRACE", "growing", "trie", "from", "level", fromLevel.repr, "to", toLevel.repr, "for", "key",
      hex key]
  | mergedIntoRoot block level =>
    ["TRACE", "merging", "staging", "block", hex block, "into", "root", "at", "level", level.repr]
  | mergedBeside block level key =>
    ["TRACE", "merging", "staging", "block", hex block, "at", "level", level.repr, "while",
      "writing", hex key]
  | collapsed fromLevel toLevel =>
    ["TRACE", "collapsed", "root", "from", "level", fromLevel.repr, "to", toLevel.repr]
  | bulkKept kept total =>
    ["DEBUG", "bulk", "removal", "kept", kept.repr, "of", total.repr, "values"]
  | bulkDropped total => ["DEBUG", "bulk", "removal", "dropped", "all", total.repr, "values"]

/-- The words with a blank between any two. -/
def wording (event : Event) : String :=
  " ".intercalate event.words

theorem line_eq_wording (event : Event) : event.line = event.wording := by
  have hdecimal (n : Nat) : text n = n.repr := by rw [text, decimal, Nat.repr]
  have hhex (word : Address) : hexText word.toNat = hex word := by rw [hexText, hexDigits, hex]
  rw [← String.toList_inj, wording, String.toList_intercalate, line, String.toList_append,
    String.toList_append]
  cases event <;> unfold severity Severity.name message words <;> simp [hdecimal, hhex]

theorem blank_notMem_toDigits (n : Nat) : ' ' ∉ Nat.toDigits 10 n :=
  fun hmem => nomatch isDigit_of_mem_decimal hmem

theorem blank_notMem_hex (word : Address) : ' ' ∉ (hex word).toList := by
  have hdigits : ' ' ∉ Nat.toDigits 16 word.toNat := fun hmem => nomatch isSome_hexDigit?_of_mem hmem
  simp [hex, hdigits]

theorem hex_injective : Function.Injective hex := by
  intro first second hsame
  have hdigits : hexDigits first.toNat = hexDigits second.toNat :=
    String.ofList_injective ((String.append_right_inj _).mp hsame)
  have hvalue := congrArg hexValue hdigits
  rw [hexValue_hexDigits, hexValue_hexDigits] at hvalue
  exact UInt32.toNat_inj.mp hvalue

theorem blank_notMem_words {event : Event} {word : String} (hmem : word ∈ event.words) :
    ' ' ∉ word.toList := by
  revert word
  cases event <;> simp [words, blank_notMem_toDigits, blank_notMem_hex]

theorem words_injective : Function.Injective words := by
  intro first second hsame
  cases first <;> cases second <;>
    simp_all [words, Nat.repr_inj, hex_injective.eq_iff]

theorem splitOn_line (event : Event) :
    event.line.toList.splitOn ' ' = event.words.map String.toList := by
  rw [line_eq_wording, wording, String.toList_intercalate]
  refine List.splitOn_intercalate ' ' ?_ ?_
  · rintro _ hmem
    obtain ⟨word, hword, rfl⟩ := List.mem_map.mp hmem
    exact blank_notMem_words hword
  · cases event <;> exact List.cons_ne_nil _ _

/-- A line determines its event. -/
theorem line_injective : Function.Injective line := by
  intro first second hsame
  have hwords : first.words.map String.toList = second.words.map String.toList := by
    rw [← splitOn_line, hsame, splitOn_line]
  exact words_injective (List.map_injective_iff.mpr (fun _ _ => String.toList_inj.mp) hwords)

end Event

/-- A write records these events and no others, each on a line of its words. -/
structure Revision.Records (revision : Revision V) (events : List Event) : Prop where
  journal : revision.journal = events
  lines : revision.journal.map Event.line = events.map Event.wording

theorem Revision.Records.of_journal {revision : Revision V} {events : List Event}
    (hjournal : revision.journal = events) : revision.Records events where
  journal := hjournal
  lines := hjournal ▸ List.map_congr_left fun event _ => event.line_eq_wording

namespace IntMap

variable {map after : IntMap V} {address : Address} {staging : Staging V} {merges : List Event}
  {revision : Revision V}

/-- The staged block, if the trie lacks writes to it. -/
def divergedBlock? (map : IntMap V) : Option Address :=
  map.diverged?.map Staging.block

/-- The diverged block, if an address lies outside it. -/
def displaced? (map : IntMap V) (address : Address) : Option Address :=
  map.divergedBlock?.filter fun block => block ≠ address.block

/-- What a write at an address records of a diverged block that it displaces, when the root stays. -/
def mergeJournal (map : IntMap V) (address : Address) : List Event :=
  (map.displaced? address).toList.map fun block =>
    .mergedBeside block (address ^^^ block).minLevel address

def insertionJournal (map : IntMap V) (address : Address) : List Event :=
  if map.rootLevel < address.minLevel then
    .grew map.rootLevel address.minLevel address ::
      (map.displaced? address).toList.map (.mergedIntoRoot · map.rootLevel)
  else
    map.mergeJournal address

def collapseJournal (map after : IntMap V) : List Event :=
  if after.isEmpty = false ∧ after.rootLevel < map.rootLevel then
    [.collapsed map.rootLevel after.rootLevel]
  else
    []

/-- What the removal of a key that the map has records. -/
def removalJournal (map after : IntMap V) (address : Address) : List Event :=
  map.mergeJournal address ++ map.collapseJournal after

/-- What a bulk removal from a map with values records. -/
def bulkJournal (map after : IntMap V) : List Event :=
  map.divergedBlock?.toList.map (.mergedIntoRoot · map.rootLevel) ++
    if after.isEmpty then [.bulkDropped map.size]
    else map.collapseJournal after ++ [.bulkKept after.size map.size]

/-- The key is the largest one, read as unsigned. -/
def LargestKey (map : IntMap V) (key : Int32) : Prop :=
  (∃ value, map.get? key = .ok (some value)) ∧
    ∀ other held, map.get? other = .ok (some held) → (ofKey other).toNat ≤ (ofKey key).toNat

/-- The root stands at the least level for the largest key, if there is one. -/
def Fitted (map : IntMap V) : Prop :=
  map.isEmpty = false → ∃ key, map.LargestKey key ∧ map.rootLevel = (ofKey key).minLevel

structure Journaled (map : IntMap V) : Prop where
  fitted : map.Fitted
  insert : ∀ key value, ∃ revision, map.insert key value = .ok revision ∧
    revision.Records (map.insertionJournal (ofKey key))
  remove_absent : ∀ key, map.get? key = .ok none → ∃ revision, map.remove key = .ok revision ∧
    revision.Records []
  remove_present : ∀ key held, map.get? key = .ok (some held) →
    ∃ revision, map.remove key = .ok revision ∧ revision.map.Fitted ∧
      revision.Records (map.removalJournal revision.map (ofKey key))
  removeAll_empty : map.isEmpty = true → ∀ (σ : Type) (test : V → σ → Bool × σ) (state : σ),
    ∃ revision state', map.removeAll test state = .ok (revision, state') ∧ revision.Records []
  removeAll : map.isEmpty = false → ∀ (σ : Type) (test : V → σ → Bool × σ) (state : σ),
    ∃ revision state', map.removeAll test state = .ok (revision, state') ∧ revision.map.Fitted ∧
      revision.Records (map.bulkJournal revision.map)

/-! ### Displaced blocks -/

theorem divergedBlock?_eq_some {block : Address} (hdiverged : map.divergedBlock? = some block) :
    ∃ staging, map.staging = some staging ∧ staging.block = block := by
  obtain ⟨staging, hstaging, hblock⟩ := Option.map_eq_some_iff.mp hdiverged
  exact ⟨staging, (diverged?_eq_some hstaging).1, hblock⟩

theorem displaced?_of_staged (hstaged : map.stagingFor? address = some staging) :
    map.displaced? address = none := by
  obtain ⟨hstaging, hblock⟩ := stagingFor?_eq_some hstaged
  unfold displaced?
  rw [Option.filter_eq_none_iff]
  intro block hdiverged
  obtain ⟨other, hother, rfl⟩ := divergedBlock?_eq_some hdiverged
  rw [hstaging] at hother
  cases hother
  simp [hblock]

theorem displaced?_of_not_staged (hstaged : map.stagingFor? address = none) :
    map.displaced? address = map.divergedBlock? := by
  unfold displaced?
  cases hdiverged : map.divergedBlock? with
  | none => rfl
  | some block =>
      obtain ⟨staging, hstaging, rfl⟩ := divergedBlock?_eq_some hdiverged
      have hne := block_ne_of_stagingFor? hstaged hstaging
      rw [Option.filter_some, if_pos (decide_eq_true hne)]

theorem mergeJournal_of_staged (hstaged : map.stagingFor? address = some staging) :
    map.mergeJournal address = [] := by
  unfold mergeJournal
  rw [displaced?_of_staged hstaged]
  rfl

theorem insertionJournal_of_reach (hreach : address.minLevel ≤ map.rootLevel) :
    map.insertionJournal address = map.mergeJournal address :=
  if_neg (Nat.not_lt.mpr hreach)

theorem merges_of_mergeBeside {root merged : Trie V} (hstaged : map.stagingFor? address = none)
    (hmerge : map.mergeBeside address root = .ok (merged, merges)) :
    merges = map.mergeJournal address := by
  unfold mergeJournal
  rw [displaced?_of_not_staged hstaged, divergedBlock?]
  unfold mergeBeside at hmerge
  cases hdiverged : map.diverged? with
  | none =>
      rw [hdiverged] at hmerge
      cases hmerge
      rfl
  | some staging =>
      simp only [hdiverged] at hmerge
      split at hmerge
      · obtain ⟨merged?, -, hmerge⟩ := Checked.bind_eq_ok hmerge
        cases hmerge
        rfl
      · cases hmerge

theorem collapses_of_lower {trie : Trie V} (hempty : after.isEmpty = false)
    (hlevel : after.rootLevel = (trie.lower map.rootLevel).1) :
    (trie.lower map.rootLevel).2.2 = map.collapseJournal after := by
  have hle := trie.collapse_le map.rootLevel
  change after.rootLevel = (trie.collapse map.rootLevel).1 at hlevel
  change (if (trie.collapse map.rootLevel).1 = map.rootLevel then []
    else [Event.collapsed map.rootLevel (trie.collapse map.rootLevel).1]) = _
  unfold collapseJournal
  rw [hlevel]
  by_cases heq : (trie.collapse map.rootLevel).1 = map.rootLevel
  · rw [if_pos heq, if_neg (by omega)]
  · rw [if_neg heq, if_pos ⟨hempty, by omega⟩]

/-! ### The journals of a sound map -/

namespace Sound

variable (hsound : map.Sound)

include hsound

theorem merges_of_mergedRoot {root? : Option (Trie V)}
    (hmerge : map.mergedRoot = .ok (root?, merges)) :
    merges = map.divergedBlock?.toList.map (.mergedIntoRoot · map.rootLevel) := by
  rw [divergedBlock?]
  unfold mergedRoot at hmerge
  cases hdiverged : map.diverged? with
  | none =>
      rw [hdiverged] at hmerge
      cases hroot : map.root <;> rw [hroot] at hmerge <;> cases hmerge <;> rfl
  | some staging =>
      obtain ⟨-, root, hroot, -⟩ := hsound.staged_path (diverged?_eq_some hdiverged).1
      simp only [hroot, hdiverged] at hmerge
      obtain ⟨merged, -, hmerge⟩ := Checked.bind_eq_ok hmerge
      cases hmerge
      rfl

theorem isEmpty_eq_false_iff : map.isEmpty = false ↔ map.root ≠ none := by
  rw [isEmpty, beq_eq_false_iff_ne, ne_eq, ne_eq, hsound.root_eq_none_iff]

theorem isEmpty_of_root {root : Trie V} (hroot : map.root = some root) : map.isEmpty = false :=
  hsound.isEmpty_eq_false_iff.mpr (by rw [hroot]; exact Option.some_ne_none root)

theorem fitted : map.Fitted := by
  intro hempty
  obtain ⟨root, hroot⟩ := Option.ne_none_iff_exists'.mp (hsound.isEmpty_eq_false_iff.mp hempty)
  have hheld : {address | (map.contents address).isSome}.Nonempty := by
    by_contra hnone
    apply hsound.contents_ne_empty hroot
    rw [← Contents.size_eq_zero_iff, Contents.size, Set.not_nonempty_iff_eq_empty.mp hnone,
      Set.ncard_empty]
  obtain ⟨address, hmem, hlargest⟩ :=
    Set.exists_max_image _ UInt32.toNat (Set.toFinite _) hheld
  obtain ⟨value, hvalue⟩ := Option.isSome_iff_exists.mp hmem
  have hbound : ∀ other held, map.contents other = some held → other.toNat ≤ address.toNat :=
    fun other held hother => hlargest other (Option.isSome_iff_exists.mpr ⟨held, hother⟩)
  refine ⟨toKey address, ⟨⟨value, ?_⟩, ?_⟩, hsound.rootLevel_eq_largest hvalue hbound⟩
  · rw [hsound.get?_eq]
    exact congrArg Except.ok hvalue
  · intro other held hother
    rw [hsound.get?_eq] at hother
    exact hbound (ofKey other) held (Except.ok.inj hother)

theorem journal_inserted (hinserted : map.Inserted address revision) :
    revision.journal = map.insertionJournal address := by
  cases hinserted with
  | staged hstaged =>
      rw [insertionJournal_of_reach (hsound.reach_of_stagingFor? hstaged),
        mergeJournal_of_staged hstaged]
  | grown hstaged hreach hmerge =>
      unfold insertionJournal
      rw [if_pos hreach, displaced?_of_not_staged hstaged, hsound.merges_of_mergedRoot hmerge]
  | placed hstaged hreach hmerge =>
      rw [insertionJournal_of_reach hreach]
      exact merges_of_mergeBeside hstaged hmerge
  | first hstaged hreach hroot =>
      rw [insertionJournal_of_reach hreach, hsound.empty_of_root hroot]
      rfl

theorem displaced?_of_cleared (hupdated : map.Updated address none empty) :
    map.displaced? address = none := by
  unfold displaced?
  rw [Option.filter_eq_none_iff]
  intro block hdiverged
  obtain ⟨staging, hstaging, rfl⟩ := divergedBlock?_eq_some hdiverged
  obtain ⟨member, value, hblock, hvalue⟩ := hsound.exists_staged_value hstaging
  by_cases heq : member = address
  · rw [← hblock, heq]
    simp
  · have hkept := congrFun hupdated.contents member
    rw [Function.update_of_ne heq, hvalue, contents_empty] at hkept
    cases hkept

theorem journal_removed {held : V} (hheld : map.contents address = some held)
    (hremoved : map.Removed address revision) (hupdated : map.Updated address none revision.map) :
    revision.journal = map.removalJournal revision.map address := by
  unfold removalJournal
  cases hremoved with
  | absent =>
      have hkept := congrFun hupdated.contents address
      rw [Function.update_self, hheld] at hkept
      cases hkept
  | staged hstaged hsize =>
      rw [mergeJournal_of_staged hstaged, collapseJournal, if_neg fun hfall => hfall.2.false]
      rfl
  | cleared =>
      -- A diverged block elsewhere would still have its values.
      unfold mergeJournal
      rw [hsound.displaced?_of_cleared hupdated]
      rfl
  | dropped hstaged hslot hlast hsize =>
      have hempty := hupdated.sound.isEmpty_of_root rfl
      rw [mergeJournal_of_staged hstaged]
      exact collapses_of_lower hempty rfl
  | taken hstaged hmerge hsize =>
      have hempty := hupdated.sound.isEmpty_of_root rfl
      rw [← merges_of_mergeBeside hstaged hmerge, ← collapses_of_lower hempty rfl]

theorem journal_swept (hempty : map.isEmpty = false) (hswept : map.Swept revision)
    (hafter : revision.map.Sound) : revision.journal = map.bulkJournal revision.map := by
  unfold bulkJournal
  cases hswept with
  | rootless hmerge =>
      exact absurd (root_of_mergedRoot hmerge) (hsound.isEmpty_eq_false_iff.mp hempty)
  | cleared hmerge => rw [← hsound.merges_of_mergedRoot hmerge]; rfl
  | kept hmerge =>
      have hkept := hafter.isEmpty_of_root rfl
      rw [← hsound.merges_of_mergedRoot hmerge, hkept, if_neg Bool.false_ne_true,
        ← collapses_of_lower hkept rfl, List.append_assoc]

end Sound

/-- **The journal.** Every write to a map that steps make records what the map, the key and the result
tell, in order, and nothing else. -/
theorem reachable_journal (hmap : map.Reachable) : map.Journaled := by
  have hsound := hmap.sound
  refine ⟨hsound.fitted, ?insert, ?absent, ?present, ?none, ?some⟩
  case insert =>
    intro key value
    obtain ⟨revision, hinsert, -⟩ := hsound.insert_ok key value
    exact ⟨revision, hinsert, .of_journal (hsound.journal_inserted (inserted_of_insert hinsert))⟩
  case absent =>
    intro key hfree
    rw [hsound.get?_eq] at hfree
    obtain ⟨revision, hremove, hupdated⟩ := hsound.remove_ok key
    have hsame := hsound.eq_of_removed_absent (Except.ok.inj hfree) (removed_of_remove hremove) hupdated
    exact ⟨revision, hremove, .of_journal (by rw [hsame])⟩
  case present =>
    intro key held hheld
    rw [hsound.get?_eq] at hheld
    obtain ⟨revision, hremove, hupdated⟩ := hsound.remove_ok key
    exact ⟨revision, hremove, hupdated.sound.fitted,
      .of_journal (hsound.journal_removed (Except.ok.inj hheld) (removed_of_remove hremove) hupdated)⟩
  case none =>
    intro hempty σ test state
    have hroot : map.root = none := hsound.root_eq_none_iff.mpr (beq_iff_eq.mp hempty)
    rw [hsound.empty_of_root hroot]
    exact ⟨⟨empty, []⟩, state, rfl, .of_journal rfl⟩
  case some =>
    intro hempty σ test state
    obtain ⟨revision, hremove, hafter, -⟩ := hsound.removeAll_ok test state
    exact ⟨revision, _, hremove, hafter.fitted,
      .of_journal (hsound.journal_swept hempty (swept_of_removeAll hremove) hafter)⟩

/-- A write to the staged block is still missing in the trie when the root has to rise. -/
theorem journal_of_diverged :
    let target : Leaf Nat := ⟨1, .one 6 1⟩
    let root : Trie Nat := .branch (.bitmap 5 [.leaf ⟨0, .one 3 0⟩, .leaf target])
    let map : IntMap Nat := ⟨3, 1, some root, some ⟨95, target, ⟨2, .bitmap 192 [1, 2]⟩⟩, 3⟩
    map.Reachable ∧ map.insertionJournal (ofKey 2000) = [.grew 1 2 2000, .mergedIntoRoot 95 1] ∧
      (map.insertionJournal (ofKey 2000)).map Event.wording =
        ["TRACE growing trie from level 1 to 2 for key 0x7d0",
          "TRACE merging staging block 0x5f into root at level 1"] ∧
      map.Journaled := by
  intro target root map
  have hmap : map.Reachable :=
    .step (.insert 71 2) (.step (.ofList [(3, 0), (70, 1)]) .empty rfl) rfl
  exact ⟨hmap, by decide, by decide, reachable_journal hmap⟩

end IntMap

end RadixMap
