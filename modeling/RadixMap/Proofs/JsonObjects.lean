import Mathlib
import RadixMap.Proofs.Exchange
import RadixMap.Proofs.JsonReading

/-!
# Maps read from any object

However an object is written, a reader of JSON makes of it what inserting its entries in the order of
the text makes: of several values for one key the last stays, and the journal is the one of the
insertions. If one of the names is no key, there is no map, whatever was inserted before it.
-/

namespace RadixMap.IntMap

open Json

variable {Error : Type} {reader : MapReader String Datum Error}

/-- The text is read as what inserting the entries gives, with the same events: the last value for each
key, and as many entries as there are different keys. -/
structure ReadFrom (reader : MapReader String Datum Error) (text : String)
    (entries : List (Int32 × Datum)) (revision : Revision Datum) : Prop where
  read : deserialize reader text = .ok ⟨.ok revision.map, revision.journal⟩
  inserted : ofList entries = .ok revision
  get? : ∀ key, revision.map.get? key = .ok (entries.reverse.lookup key)
  size : revision.map.size = (entries.map (·.1)).toFinset.card

theorem keys_insertAll_empty {V : Type} (entries : List (Int32 × V)) :
    (FiniteMap.insertAll ∅ entries).keys = (entries.map (·.1)).toFinset := by
  ext key
  rw [Finmap.mem_keys, FiniteMap.mem_insertAll, List.mem_toFinset]
  exact or_iff_left Finmap.notMem_empty

theorem exists_readFrom (hreader : reader.ReadsJson) {entries : List (Int32 × Datum)} {text : String}
    (htext : ObjectText (entries.map memberOf) text.toList) :
    ∃ revision, ReadFrom reader text entries revision := by
  obtain ⟨revision, hbuilt, hrefines⟩ := Refines.insertAll_ok ⟨empty, []⟩ refines_empty entries
  exact ⟨revision, {
    read := deserialize_entries hreader htext hbuilt
    inserted := hbuilt
    get? := fun key => by
      rw [hrefines.represents.get?, FiniteMap.lookup_insertAll_reverse, Finmap.lookup_empty,
        Option.or_none]
    size := by rw [hrefines.size_eq, keys_insertAll_empty] }⟩

/-- **Arbitrary objects.** By a reader of JSON, a text that writes an object of entries, in any layout
and with repeated keys, is read as what inserting the entries gives; a text with a name that is no key
gives an error. -/
theorem deserialize_object (reader : MapReader String Datum Error) (hreader : reader.ReadsJson) :
    (∀ (entries : List (Int32 × Datum)) (text : String),
      ObjectText (entries.map memberOf) text.toList →
        ∃ revision, ReadFrom reader text entries revision) ∧
      ∀ (members : List Member) (text : String), ObjectText members text.toList →
        (∀ member ∈ members,
          FaultyName member.1 ∨ ∃ key : Int32, member.1 = Numeral.signed key.toInt) →
        (∃ member ∈ members, FaultyName member.1) →
          ∃ error journal, deserialize reader text = .ok ⟨.error error, journal⟩ :=
  ⟨fun _ _ htext => exists_readFrom hreader htext,
    fun _ _ htext hnames hfaulty => deserialize_faulty hreader htext hnames hfaulty⟩

/-- A repeated key, blanks of every kind and escapes of every kind; and a key past the least one, after
a member that can be read. -/
theorem deserialize_of_layouts :
    let entries : List (Int32 × Datum) := [(5, .text "a\n😀A"), (-2, .integer 7), (5, .integer (-9))]
    let text := "\t\x7b \"5\" :\r\"a\\n\\ud83D\\uDe00\\u0041\" ,\n\"-2\":7,\"5\":-9 \x7d\n"
    let faulty := "\x7b\"1\":2,\"-2147483649\":3\x7d"
    Json.reader.ReadsJson ∧ (∃ revision, ReadFrom Json.reader text entries revision) ∧
      ∃ error journal, deserialize Json.reader faulty = .ok ⟨.error error, journal⟩ := by
  intro entries text faulty
  let members : List Member := [memberOf (1, .integer 2), (Numeral.signed (-2147483649), .integer 3)]
  have hblank : ∀ c ∈ [' ', '\n', '\t', '\r'], Blank [c] := by
    intro c hmem other hother
    rwa [List.mem_singleton.mp hother]
  have htext : ObjectText (entries.map memberOf) text.toList := by
    have hhigh : HexWord (0xD800 + 0x3D) ['d', '8', '3', 'D'] :=
      @HexWord.digits 'd' '8' '3' 'D' 13 8 3 13 (by decide) (by decide) (by decide) (by decide)
    have hlow : HexWord (0xDC00 + 0x200) ['D', 'e', '0', '0'] :=
      @HexWord.digits 'D' 'e' '0' '0' 13 14 0 0 (by decide) (by decide) (by decide) (by decide)
    have hword : HexWord 'A'.toNat ['0', '0', '4', '1'] :=
      @HexWord.digits '0' '0' '4' '1' 0 0 4 1 (by decide) (by decide) (by decide) (by decide)
    have hbody : StringText "a\n😀A".toList "a\\n\\ud83D\\uDe00\\u0041".toList :=
      .cons (.plain (by decide) (by decide) (by decide)) (.cons (.letter (by decide))
        (.cons (.surrogates (by decide) (by decide) rfl hhigh hlow) (.cons (.word hword) .nil)))
    have hfirst : MemberText (memberOf (5, .text "a\n😀A"))
        " \"5\" :\r\"a\\n\\ud83D\\uDe00\\u0041\" ".toList :=
      .blanks (hblank ' ' (by decide)) (hblank ' ' (by decide)) (hblank '\r' (by decide))
        (hblank ' ' (by decide)) (.text hbody)
    have hsecond : MemberText (memberOf (-2, .integer 7)) "\n\"-2\":7".toList :=
      .blanks (hblank '\n' (by decide)) blank_nil blank_nil blank_nil (.integer 7)
    have hthird : MemberText (memberOf (5, .integer (-9))) "\"5\":-9 ".toList :=
      .blanks blank_nil blank_nil blank_nil (hblank ' ' (by decide)) (.integer (-9))
    have hobject : ObjectText (entries.map memberOf) _ :=
      .members (hblank '\t' (by decide)) (.cons hfirst (.cons hsecond (.last hthird)))
        (hblank '\n' (by decide))
    convert hobject using 1
    decide
  have hfaulty : ObjectText members faulty.toList := by
    have hlast : MemberText (Numeral.signed (-2147483649), .integer 3) "\"-2147483649\":3".toList :=
      .blanks blank_nil blank_nil blank_nil blank_nil (.integer 3)
    have hobject : ObjectText members _ :=
      .members blank_nil (.cons (memberText_written (1, .integer 2)) (.last hlast)) blank_nil
    convert hobject using 1
    decide
  have hname : FaultyName (Numeral.signed (-2147483649)) := faultyName_signed (by decide)
  have hobject := deserialize_object Json.reader reader_readsJson
  refine ⟨reader_readsJson, hobject.1 entries text htext, hobject.2 members faulty hfaulty ?_ ?_⟩
  · intro member hmem
    rcases List.mem_pair.mp hmem with rfl | rfl
    · exact Or.inr ⟨1, rfl⟩
    · exact Or.inl hname
  · exact ⟨_, List.mem_cons_of_mem _ List.mem_cons_self, hname⟩

end RadixMap.IntMap
