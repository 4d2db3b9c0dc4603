import Mathlib
import RadixMap.Map.Exchange
import RadixMap.Proofs.History
import RadixMap.Proofs.JsonGrammar

/-!
# Maps and JSON

What a format has to do for each call to be one of JSON objects: a writer adds a member to those that it
wrote, and a reader takes the first of the members that are still ahead of it. From that alone, a map is
written as the object of its entries, and reading an object is inserting its entries in turn, up to a
name that is no key.
-/

namespace RadixMap

open Json

/-! ### What is required of a format -/

theorem bind_of_ok {Error α β : Type} {first : Except Error α} {next : α → Except Error β} {value : α}
    {result : β} (hfirst : first = .ok value) (hnext : next value = .ok result) :
    first >>= next = .ok result := by
  rw [hfirst]
  exact hnext

namespace MapWriter

variable {Error : Type} {writer : MapWriter Datum String Error}

/-- Each call of the writer goes on with an object without blanks. `Written` tells how many members
were announced and which ones a state stands for. -/
structure KeepsObject (writer : MapWriter Datum String Error)
    (Written : writer.State → Nat → List (Int32 × Datum) → Prop) : Prop where
  start : ∀ count, ∃ state, writer.start (some count) = .ok state ∧ Written state count []
  entry : ∀ {state count entries}, Written state count entries → entries.length < count →
    ∀ key value, ∃ next, writer.entry state key value = .ok next ∧
      Written next count (entries ++ [(key, value)])
  finish : ∀ {state entries}, Written state entries.length entries →
    writer.finish state = .ok (String.ofList (writtenObject entries))

/-- The writer writes JSON objects without blanks. -/
def WritesJson (writer : MapWriter Datum String Error) : Prop :=
  ∃ Written, writer.KeepsObject Written

theorem KeepsObject.foldlM_ok {Written : writer.State → Nat → List (Int32 × Datum) → Prop}
    (hkeeps : writer.KeepsObject Written) {state : writer.State} {count : Nat}
    {before : List (Int32 × Datum)} (hwritten : Written state count before)
    (entries : List (Int32 × Datum)) (hcount : before.length + entries.length = count) :
    ∃ last, entries.foldlM (fun state (key, value) => writer.entry state key value) state =
        .ok last ∧ Written last count (before ++ entries) := by
  induction entries generalizing state before with
  | nil => exact ⟨state, rfl, (List.append_nil before).symm ▸ hwritten⟩
  | cons entry entries ih =>
      obtain ⟨key, value⟩ := entry
      rw [List.length_cons] at hcount
      obtain ⟨next, hentry, hnext⟩ := hkeeps.entry hwritten (by omega) key value
      have hlength : (before ++ [(key, value)]).length + entries.length = count := by
        rw [List.length_append, List.length_singleton]
        omega
      obtain ⟨last, hfold, hlast⟩ := ih hnext hlength
      rw [List.append_assoc, List.singleton_append] at hlast
      refine ⟨last, ?_, hlast⟩
      rw [List.foldlM_cons]
      exact bind_of_ok hentry hfold

theorem WritesJson.writeAll_eq (hwriter : writer.WritesJson) (entries : List (Int32 × Datum)) :
    writer.writeAll entries = .ok (String.ofList (writtenObject entries)) := by
  obtain ⟨Written, hkeeps⟩ := hwriter
  obtain ⟨opened, hopen, hopened⟩ := hkeeps.start entries.length
  obtain ⟨written, hfold, hwritten⟩ := hkeeps.foldlM_ok hopened entries (Nat.zero_add _)
  exact bind_of_ok hopen (bind_of_ok hfold (hkeeps.finish hwritten))

end MapWriter

namespace MapReader

variable {Error : Type}

/-- Each call of the reader goes on in an object. `Ahead` tells which members are still to come. -/
structure FollowsObject (reader : MapReader String Datum Error)
    (Ahead : reader.State → List Member → Prop) : Prop where
  start : ∀ {members text}, ObjectText members text.toList → ∀ expected,
    ∃ state, reader.start text expected = .ok state ∧ Ahead state members
  entry : ∀ {state entry members}, Ahead state (memberOf entry :: members) →
    ∃ next, reader.next state = .ok (some (entry, next)) ∧ Ahead next members
  faulty : ∀ {state member members}, Ahead state (member :: members) → FaultyName member.1 →
    ∃ error, reader.next state = .error error
  finish : ∀ {state}, Ahead state [] → reader.next state = .ok none ∧ reader.finish state = .ok ()

/-- The reader reads JSON objects, however they are written. -/
def ReadsJson (reader : MapReader String Datum Error) : Prop :=
  ∃ Ahead, reader.FollowsObject Ahead

end MapReader

/-! ### Maps -/

namespace IntMap

section Writing

variable {Error : Type} {writer : MapWriter Datum String Error} {map : IntMap Datum}

theorem serialize_eq (hwriter : writer.WritesJson) {entries : List (Int32 × Datum)}
    (hentries : map.sortedEntries = .ok entries) :
    map.serialize writer = .ok (.ok (String.ofList (writtenObject entries))) := by
  rw [serialize, hentries, Checked.ok_bind, hwriter.writeAll_eq]
  rfl

end Writing

section Reading

variable {V Input Error : Type} {reader : MapReader Input V Error} {state rest : reader.State}

theorem visit_eq (revision : Revision V) (state : reader.State) :
    visit reader revision state =
      match reader.next state with
      | .ok (some ((key, value), rest)) =>
        revision.andThen (fun map => map.insert key value) >>= fun later => visit reader later rest
      | .ok none => .ok (revision, .ok state)
      | .error error => .ok (revision, .error error) := by
  rw [visit]
  split <;> rename_i hnext <;> rw [hnext]

theorem visit_entry {key : Int32} {value : V} (hnext : reader.next state = .ok (some ((key, value), rest)))
    (revision : Revision V) :
    visit reader revision state =
      revision.andThen (fun map => map.insert key value) >>= fun later =>
        visit reader later rest := by
  rw [visit_eq, hnext]

theorem visit_end (hnext : reader.next state = .ok none) (revision : Revision V) :
    visit reader revision state = .ok (revision, .ok state) := by
  rw [visit_eq, hnext]

theorem visit_error {error : Error} (hnext : reader.next state = .error error)
    (revision : Revision V) : visit reader revision state = .ok (revision, .error error) := by
  rw [visit_eq, hnext]

end Reading

section Objects

variable {Error : Type} {reader : MapReader String Datum Error}
  {Ahead : reader.State → List Member → Prop} (hfollows : reader.FollowsObject Ahead)

include hfollows

/-- Going through members that all have keys is inserting the entries. -/
theorem visit_entries {state : reader.State} {entries : List (Int32 × Datum)}
    (hahead : Ahead state (entries.map memberOf)) {revision later : Revision Datum}
    (hinserted : entries.foldlM
      (fun revision (key, value) => revision.andThen fun map => map.insert key value) revision =
        .ok later) :
    ∃ last, visit reader revision state = .ok (later, .ok last) ∧ reader.finish last = .ok () := by
  induction entries generalizing state revision with
  | nil =>
      obtain ⟨hend, hfinish⟩ := hfollows.finish hahead
      cases hinserted
      exact ⟨state, visit_end hend later, hfinish⟩
  | cons entry entries ih =>
      obtain ⟨key, value⟩ := entry
      obtain ⟨rest, hnext, hrest⟩ := hfollows.entry hahead
      rw [List.foldlM_cons] at hinserted
      obtain ⟨middle, hmiddle, hinserted⟩ := Checked.bind_eq_ok hinserted
      obtain ⟨last, hvisit, hfinish⟩ := ih hrest hinserted
      refine ⟨last, ?_, hfinish⟩
      rw [visit_entry hnext]
      exact bind_of_ok hmiddle hvisit

/-- A name that is no key ends the reading, whatever was inserted before it. -/
theorem visit_faulty {state : reader.State} {members : List Member} (hahead : Ahead state members)
    (hnames : ∀ member ∈ members,
      FaultyName member.1 ∨ ∃ key : Int32, member.1 = Numeral.signed key.toInt)
    (hfaulty : ∃ member ∈ members, FaultyName member.1) (revision : Revision Datum)
    {model : FiniteMap Datum} (hrefines : revision.map.Refines model) :
    ∃ later error, visit reader revision state = .ok (later, .error error) := by
  induction members generalizing state revision model with
  | nil =>
      obtain ⟨member, hmem, -⟩ := hfaulty
      cases hmem
  | cons member members ih =>
      by_cases hname : FaultyName member.1
      · obtain ⟨error, hnext⟩ := hfollows.faulty hahead hname
        exact ⟨revision, error, visit_error hnext revision⟩
      -- This member has a key, so the fault is in one of the others.
      · obtain ⟨key, hkey⟩ := (hnames member List.mem_cons_self).resolve_left hname
        obtain ⟨other, hmem, hother⟩ := hfaulty
        have hmem : other ∈ members := by
          refine (List.mem_cons.mp hmem).resolve_left ?_
          rintro rfl
          exact hname hother
        have hentry : member = memberOf (key, member.2) := Prod.ext hkey rfl
        rw [hentry] at hahead
        obtain ⟨rest, hnext, hrest⟩ := hfollows.entry hahead
        obtain ⟨written, hinsert, hwritten⟩ := hrefines.insert_ok key member.2
        have hmiddle : revision.andThen (fun map => map.insert key member.2) =
            .ok ⟨written.map, revision.journal ++ written.journal⟩ := by
          rw [Revision.andThen, hinsert]
          rfl
        obtain ⟨later, error, hvisit⟩ :=
          ih hrest (fun member hmem => hnames member (List.mem_cons_of_mem _ hmem))
            ⟨other, hmem, hother⟩ ⟨written.map, revision.journal ++ written.journal⟩ hwritten
        refine ⟨later, error, ?_⟩
        rw [visit_entry hnext]
        exact bind_of_ok hmiddle hvisit

end Objects

section Texts

variable {Error : Type} {reader : MapReader String Datum Error} (hreader : reader.ReadsJson)

include hreader

theorem deserialize_entries {entries : List (Int32 × Datum)} {text : String}
    (htext : ObjectText (entries.map memberOf) text.toList) {revision : Revision Datum}
    (hinserted : ofList entries = .ok revision) :
    deserialize reader text = .ok ⟨.ok revision.map, revision.journal⟩ := by
  obtain ⟨Ahead, hfollows⟩ := hreader
  obtain ⟨opened, hopen, hahead⟩ := hfollows.start htext expecting
  obtain ⟨last, hvisit, hfinish⟩ := visit_entries hfollows hahead hinserted
  rw [deserialize, hopen]
  change visit reader ⟨empty, []⟩ opened >>= _ = _
  rw [hvisit]
  change Except.ok (Reading.mk ((fun _ => revision.map) <$> reader.finish last) revision.journal) = _
  rw [hfinish]
  rfl

theorem deserialize_faulty {members : List Member} {text : String}
    (htext : ObjectText members text.toList)
    (hnames : ∀ member ∈ members,
      FaultyName member.1 ∨ ∃ key : Int32, member.1 = Numeral.signed key.toInt)
    (hfaulty : ∃ member ∈ members, FaultyName member.1) :
    ∃ error journal, deserialize reader text = .ok ⟨.error error, journal⟩ := by
  obtain ⟨Ahead, hfollows⟩ := hreader
  obtain ⟨opened, hopen, hahead⟩ := hfollows.start htext expecting
  obtain ⟨later, error, hvisit⟩ :=
    visit_faulty hfollows hahead hnames hfaulty ⟨empty, []⟩ refines_empty
  refine ⟨error, later.journal, ?_⟩
  rw [deserialize, hopen]
  change visit reader ⟨empty, []⟩ opened >>= _ = _
  rw [hvisit]
  rfl

end Texts

end IntMap

end RadixMap
