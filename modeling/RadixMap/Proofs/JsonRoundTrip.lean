import Mathlib
import RadixMap.Proofs.Equality
import RadixMap.Proofs.Exchange
import RadixMap.Proofs.JsonReading
import RadixMap.Proofs.SignedOrder

/-!
# Round trip through JSON

A writer of JSON writes a map as the object of its entries in the order of the keys. A reader of that
text inserts the entries in this order, which is another than the order that made the map, and gives a
map that equals it. Equal maps, and only they, are written alike.
-/

namespace RadixMap.IntMap

open Address

theorem Sound.ofList_sortedEntries {V : Type} {map : IntMap V} (hsound : map.Sound)
    {entries : List (Int32 × V)} (hentries : map.sortedEntries = .ok entries) :
    ∃ revision, ofList entries = .ok revision ∧ revision.map.Sound ∧
      revision.map.contents = map.contents := by
  have hsorted := hsound.pairwise_sortedEntries hentries
  have hnodup : (entries.map (·.1)).Nodup := by
    rw [List.Nodup, List.pairwise_map]
    exact hsorted.imp fun hlt => Int32.ne_of_lt hlt
  obtain ⟨revision, hbuilt, hrefines⟩ := Refines.insertAll_ok ⟨empty, []⟩ refines_empty entries
  refine ⟨revision, hbuilt, hrefines.sound, ?_⟩
  funext address
  apply Option.ext
  intro value
  calc revision.map.contents address = some value
      ↔ (FiniteMap.insertAll ∅ entries).lookup address.toKey = some value := by
        rw [hrefines.contents_eq]
    _ ↔ (address.toKey, value) ∈ entries := by
        rw [FiniteMap.lookup_insertAll hnodup, Finmap.lookup_empty]
        simp
    _ ↔ map.contents address = some value := hsound.mem_sortedEntries hentries address.toKey value

variable {map left right : IntMap Datum} {WriteError ReadError : Type}
  {writer : MapWriter Datum String WriteError} {reader : MapReader String Datum ReadError}

/-- The text has the entries of the map as members, in ascending order of the keys, and a map that
equals it is read from the text. -/
structure Restored (writer : MapWriter Datum String WriteError)
    (reader : MapReader String Datum ReadError) (map : IntMap Datum) (text : String)
    (entries : List (Int32 × Datum)) (revision : Revision Datum) : Prop where
  written : map.serialize writer = .ok (.ok text)
  members : text = String.ofList (Json.writtenObject entries)
  ascending : entries.Pairwise fun left right => left.1 < right.1
  held : ∀ key value, (key, value) ∈ entries ↔ map.get? key = .ok (some value)
  read : deserialize reader text = .ok ⟨.ok revision.map, revision.journal⟩
  equal : revision.map.equals map = .ok true ∧ map.equals revision.map = .ok true
  same : ∀ key, revision.map.get? key = map.get? key
  size : revision.map.size = map.size

theorem deserialize_written (hreader : reader.ReadsJson) {entries : List (Int32 × Datum)}
    {revision : Revision Datum} (hbuilt : ofList entries = .ok revision) :
    deserialize reader (String.ofList (Json.writtenObject entries)) =
      .ok ⟨.ok revision.map, revision.journal⟩ := by
  apply deserialize_entries hreader _ hbuilt
  rw [String.toList_ofList]
  exact Json.objectText_written entries

theorem Sound.restored (hwriter : writer.WritesJson) (hreader : reader.ReadsJson)
    (hsound : map.Sound) : ∃ text entries revision, Restored writer reader map text entries revision := by
  obtain ⟨entries, hentries⟩ := hsound.sortedEntries_ok
  obtain ⟨revision, hbuilt, hread, hcontents⟩ := hsound.ofList_sortedEntries hentries
  exact ⟨String.ofList (Json.writtenObject entries), entries, revision, {
    written := serialize_eq hwriter hentries
    members := rfl
    ascending := hsound.pairwise_sortedEntries hentries
    held := fun key value => by
      rw [hsound.mem_sortedEntries hentries, hsound.get?_eq, Except.ok.injEq]
    read := deserialize_written hreader hbuilt
    equal := ⟨(hread.equals_iff_contents hsound).mpr hcontents,
      (hsound.equals_iff_contents hread).mpr hcontents.symm⟩
    same := (hread.contents_eq_iff hsound).mp hcontents
    size := by rw [hread.size, hsound.size, hcontents] }⟩

/-- **Round trip and normal form.** By a writer of JSON a map is written as a text from which a reader of
JSON makes a map that equals it, and two maps are equal exactly if they are written as the same text. -/
theorem reachable_serialize (writer : MapWriter Datum String WriteError)
    (reader : MapReader String Datum ReadError) (hwriter : writer.WritesJson)
    (hreader : reader.ReadsJson) :
    (∀ map : IntMap Datum, map.Reachable →
      ∃ text entries revision, Restored writer reader map text entries revision) ∧
      ∀ left right : IntMap Datum, left.Reachable → right.Reachable →
        ∃ same leftText rightText, left.equals right = .ok same ∧
          left.serialize writer = .ok (.ok leftText) ∧
          right.serialize writer = .ok (.ok rightText) ∧ (same = true ↔ leftText = rightText) := by
  refine ⟨fun map hmap => hmap.sound.restored hwriter hreader, ?_⟩
  intro left right hleft hright
  obtain ⟨same, hequals, hsame⟩ := hleft.sound.equals_eq_contents hright.sound
  obtain ⟨leftText, _, leftRead, hleftText⟩ := hleft.sound.restored hwriter hreader
  obtain ⟨rightText, _, rightRead, hrightText⟩ := hright.sound.restored hwriter hreader
  refine ⟨same, leftText, rightText, hequals, hleftText.written, hrightText.written, ?_⟩
  rw [hsame]
  constructor
  · intro hcontents
    have hwritten := hleftText.written
    obtain ⟨entries, hentries⟩ := hleft.sound.sortedEntries_ok
    have hother := hleft.sound.sortedEntries_congr hright.sound hcontents ▸ hentries
    rw [serialize_eq hwriter hentries, ← serialize_eq hwriter hother, hrightText.written,
      Except.ok.injEq, Except.ok.injEq] at hwritten
    exact hwritten.symm
  -- Both maps have the lookups of the map that is read from the one text.
  · intro htext
    have hread := hleftText.read
    rw [htext, hrightText.read, Except.ok.injEq, Reading.mk.injEq, Except.ok.injEq] at hread
    refine (hleft.sound.contents_eq_iff hright.sound).mpr fun key => ?_
    rw [← hleftText.same, ← hrightText.same, hread.1]

/-- The least key and the least integer, and a text with every kind of character. The trie of the left
map lacks its least key, and that of the right map has all three. -/
theorem serialize_of_diverged :
    let least : Datum := .integer Int64.minValue
    let quoted : Datum := .text "\"\\\n\x01/é"
    let target : Leaf Datum := ⟨1, .one 1 least⟩
    let high (leaf : Leaf Datum) : Trie Datum := .branch (.one 0 (.branch (.one 0 (.branch (.one 0
      (.branch (.one 0 (.branch (.one 0 (.leaf leaf))))))))))
    let low (leaf : Leaf Datum) : Trie Datum := (Trie.leaf leaf).lift 5
    let drafted : Node Datum := .bitmap 3 [quoted, least]
    let left : IntMap Datum :=
      ⟨3, 6, some (.branch (.bitmap 5 [low ⟨0, .one 5 quoted⟩, high target])),
        some ⟨0x8000001F, target, ⟨2, drafted⟩⟩, 3⟩
    let right : IntMap Datum :=
      ⟨3, 6, some (.branch (.bitmap 5 [low ⟨1, .one 5 quoted⟩, high ⟨2, drafted⟩])),
        some ⟨0x8000001F, ⟨2, drafted⟩, ⟨2, drafted⟩⟩, 3⟩
    Json.writer.WritesJson ∧ Json.reader.ReadsJson ∧ left.Reachable ∧ right.Reachable ∧
      (∃ text entries revision, Restored Json.writer Json.reader left text entries revision) ∧
      ∃ same leftText rightText, left.equals right = .ok same ∧
        left.serialize Json.writer = .ok (.ok leftText) ∧
        right.serialize Json.writer = .ok (.ok rightText) ∧ (same = true ↔ leftText = rightText) := by
  intro least quoted target high low drafted left right
  have hleft : left.Reachable :=
    .step (.insert Int32.minValue quoted)
      (.step (.ofList [(5, quoted), (Int32.minValue + 1, least)]) .empty rfl) rfl
  have hright : right.Reachable :=
    .step (.ofList [(Int32.minValue, quoted), (5, quoted), (Int32.minValue + 1, least)]) .empty rfl
  have hserialize :=
    reachable_serialize Json.writer Json.reader Json.writer_writesJson Json.reader_readsJson
  exact ⟨Json.writer_writesJson, Json.reader_readsJson, hleft, hright, hserialize.1 left hleft,
    hserialize.2 left right hleft hright⟩

end RadixMap.IntMap
