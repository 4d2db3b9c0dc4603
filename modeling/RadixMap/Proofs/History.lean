import Mathlib
import RadixMap.Proofs.FiniteMap
import RadixMap.Proofs.Traversal

/-!
# Histories

A history makes versions of a map one after another, each from any version before it. Replayed on
ordinary finite maps, every version stands for the finite map that the same steps give. What holds of
every sound map holds of every version of every history.
-/

namespace RadixMap

open Address

variable {V : Type}

/-- A way to make a version of a map from an earlier one. -/
inductive Step (V : Type) : Type 1
  | new
  | singleton (key : Int32) (value : V)
  | insert (key : Int32) (value : V)
  | set (key : Int32) (value? : Option V)
  | remove (key : Int32)
  | removeAll {σ : Type} (test : V → σ → Bool × σ) (state : σ)
  | ofList (entries : List (Int32 × V))
  | insertAll (entries : List (Int32 × V))
  | clone

namespace Step

def apply : Step V → IntMap V → Checked (IntMap V)
  | new, _ => .ok .empty
  | singleton key value, _ => Revision.map <$> IntMap.singleton key value
  | insert key value, map => Revision.map <$> map.insert key value
  | set key value?, map => Revision.map <$> map.set key value?
  | remove key, map => Revision.map <$> map.remove key
  | removeAll test state, map => (fun result => result.1.map) <$> map.removeAll test state
  | ofList entries, _ => Revision.map <$> IntMap.ofList entries
  | insertAll entries, map => Revision.map <$> map.insertAll entries
  | clone, map => .ok map

noncomputable def replay : Step V → FiniteMap V → FiniteMap V
  | new, _ => ∅
  | singleton key value, _ => Finmap.singleton key value
  | insert key value, model => model.insert key value
  | set key (some value), model => model.insert key value
  | set key none, model => model.erase key
  | remove key, model => model.erase key
  | removeAll test state, model => model.removeAll test state
  | ofList entries, _ => FiniteMap.insertAll ∅ entries
  | insertAll entries, model => model.insertAll entries
  | clone, model => model

end Step

/-- Steps, each with the number of the version that it starts from; a number that no version has yet
stands for the empty map. -/
abbrev History (V : Type) := List (Nat × Step V)

namespace History

/-- The versions after more steps, oldest first. -/
def runFrom (versions : List (IntMap V)) : History V → Checked (List (IntMap V))
  | [] => .ok versions
  | (origin, step) :: rest => do
    let next ← step.apply (versions.getD origin .empty)
    runFrom (versions ++ [next]) rest

def run (history : History V) : Checked (List (IntMap V)) :=
  runFrom [.empty] history

noncomputable def replayFrom (models : List (FiniteMap V)) : History V → List (FiniteMap V)
  | [] => models
  | (origin, step) :: rest => replayFrom (models ++ [step.replay (models.getD origin ∅)]) rest

noncomputable def replay (history : History V) : List (FiniteMap V) :=
  replayFrom [∅] history

end History

namespace IntMap

/-- To its readers the map is the finite map. -/
structure Represents (map : IntMap V) (model : FiniteMap V) : Prop where
  get? : ∀ key, map.get? key = .ok (model.lookup key)
  contains : ∀ key, map.contains key = .ok (decide (key ∈ model.keys))
  size : map.size = model.keys.card
  isEmpty : map.isEmpty = true ↔ model = ∅

/-- A sound map with the entries of a finite map. -/
structure Refines (map : IntMap V) (model : FiniteMap V) : Prop where
  sound : map.Sound
  contents : ∀ key, map.contents (ofKey key) = model.lookup key

theorem Represents.refines {map : IntMap V} {model : FiniteMap V} (hmodel : map.Represents model)
    (hsound : map.Sound) : map.Refines model := by
  refine ⟨hsound, fun key => ?_⟩
  have hget := hmodel.get? key
  rw [hsound.get?_eq] at hget
  exact Except.ok.inj hget

theorem refines_empty : (empty : IntMap V).Refines ∅ where
  sound := sound_empty
  contents key := by
    rw [contents_empty, Finmap.lookup_empty]
    rfl

namespace Refines

variable {map : IntMap V} {model : FiniteMap V}

theorem contents_eq (hrefines : map.Refines model) (address : Address) :
    map.contents address = model.lookup address.toKey :=
  hrefines.contents address.toKey

theorem contents_isSome_iff (hrefines : map.Refines model) (key : Int32) :
    (map.contents (ofKey key)).isSome ↔ key ∈ model := by
  rw [hrefines.contents, Finmap.lookup_isSome]

theorem size_eq (hrefines : map.Refines model) : map.size = model.keys.card := by
  have hkeys : {address | (map.contents address).isSome} =
      Set.image ofKey (model.keys : Set Int32) := by
    ext address
    rw [Set.mem_ofPred_eq, hrefines.contents_eq, Finmap.lookup_isSome]
    constructor
    · exact fun hmem => ⟨address.toKey, Finset.mem_coe.mpr (Finmap.mem_keys.mpr hmem), rfl⟩
    · rintro ⟨key, hkey, rfl⟩
      exact Finmap.mem_keys.mp (Finset.mem_coe.mp hkey)
  rw [hrefines.sound.size, Contents.size, hkeys, Set.ncard_image_of_injective _ FiniteMap.ofKey_injective,
    Set.ncard_coe_finset]

theorem represents (hrefines : map.Refines model) : map.Represents model where
  get? key := by rw [hrefines.sound.get?_eq, hrefines.contents]
  contains key := by
    rw [contains, hrefines.sound.get?_eq, hrefines.contents, Checked.map_ok]
    congr 1
    rw [Bool.eq_iff_iff, decide_eq_true_iff, Finmap.mem_keys, Finmap.lookup_isSome]
  size := hrefines.size_eq
  isEmpty := by
    rw [isEmpty, beq_iff_eq, hrefines.size_eq, Finset.card_eq_zero]
    constructor
    · intro hkeys
      refine Finmap.ext_lookup fun key => ?_
      rw [Finmap.lookup_empty, Finmap.lookup_eq_none, ← Finmap.mem_keys, hkeys]
      exact Finset.notMem_empty key
    · rintro rfl
      exact Finmap.keys_empty

theorem of_updated (hrefines : map.Refines model) {key : Int32} {value? : Option V} {after : IntMap V}
    {next : FiniteMap V} (hupdated : map.Updated (ofKey key) value? after)
    (hself : next.lookup key = value?)
    (hothers : ∀ other, other ≠ key → next.lookup other = model.lookup other) :
    after.Refines next := by
  refine ⟨hupdated.sound, fun other => ?_⟩
  rw [hupdated.contents]
  by_cases heq : other = key
  · rw [heq, Function.update_self, hself]
  · have hne : ofKey other ≠ ofKey key := fun hkey => heq (FiniteMap.ofKey_injective hkey)
    rw [Function.update_of_ne hne, hrefines.contents, hothers other heq]

theorem insert_ok (hrefines : map.Refines model) (key : Int32) (value : V) :
    ∃ revision, map.insert key value = .ok revision ∧
      revision.map.Refines (model.insert key value) := by
  obtain ⟨revision, hinsert, hupdated⟩ := hrefines.sound.insert_ok key value
  exact ⟨revision, hinsert, hrefines.of_updated hupdated (Finmap.lookup_insert model)
    fun _ hne => Finmap.lookup_insert_of_ne model hne⟩

theorem remove_ok (hrefines : map.Refines model) (key : Int32) :
    ∃ revision, map.remove key = .ok revision ∧ revision.map.Refines (model.erase key) := by
  obtain ⟨revision, hremove, hupdated⟩ := hrefines.sound.remove_ok key
  exact ⟨revision, hremove, hrefines.of_updated hupdated (Finmap.lookup_erase key model)
    fun _ hne => Finmap.lookup_erase_ne hne⟩

theorem insertAll_ok (revision : Revision V) (hrefines : revision.map.Refines model)
    (entries : List (Int32 × V)) :
    ∃ next, entries.foldlM (fun revision (key, value) =>
        revision.andThen fun map => map.insert key value) revision = .ok next ∧
      next.map.Refines (model.insertAll entries) := by
  induction entries generalizing revision model with
  | nil => exact ⟨revision, rfl, hrefines⟩
  | cons entry rest ih =>
      obtain ⟨inserted, hinsert, hinserted⟩ := hrefines.insert_ok entry.1 entry.2
      obtain ⟨next, hnext, hrefined⟩ :=
        ih ⟨inserted.map, revision.journal ++ inserted.journal⟩ hinserted
      refine ⟨next, ?_, hrefined⟩
      simp only [List.foldlM_cons, Revision.andThen, hinsert, Checked.ok_bind, Checked.pure_eq]
      exact hnext

theorem addressed_eq (hrefines : map.Refines model) :
    map.addressed = model.entries.map fun entry => (ofKey entry.1, entry.2) := by
  apply hrefines.sound.addressed_eq
  · rw [List.pairwise_map]
    exact model.pairwise_entries
  · intro address value
    rw [hrefines.contents_eq, List.mem_map]
    constructor
    · rintro ⟨entry, hmem, heq⟩
      cases heq
      exact FiniteMap.mem_entries.mp hmem
    · exact fun hvalue => ⟨(address.toKey, value), FiniteMap.mem_entries.mpr hvalue, rfl⟩

theorem removeAll_ok {σ : Type} (hrefines : map.Refines model) (test : V → σ → Bool × σ) (state : σ) :
    ∃ revision state', map.removeAll test state = .ok (revision, state') ∧
      revision.map.Refines (model.removeAll test state) := by
  obtain ⟨revision, hremove, hsound, -, hcontents, -⟩ := hrefines.sound.removeAll_ok test state
  refine ⟨revision, _, hremove, hsound, fun key => ?_⟩
  rw [hrefines.addressed_eq, sieve_map] at hcontents
  apply Option.ext
  intro value
  rw [hcontents, FiniteMap.lookup_removeAll, List.mem_map]
  constructor
  · rintro ⟨entry, hmem, heq⟩
    have hkey : entry.1 = key := FiniteMap.ofKey_injective (congrArg Prod.fst heq)
    have hvalue : entry.2 = value := congrArg Prod.snd heq
    rwa [← hkey, ← hvalue]
  · exact fun hmem => ⟨(key, value), hmem, rfl⟩

/-- Every step keeps a map and the finite map it stands for together, and meets no fault. -/
theorem apply_ok (hrefines : map.Refines model) (step : Step V) :
    ∃ next, step.apply map = .ok next ∧ next.Refines (step.replay model) := by
  cases step with
  | new => exact ⟨IntMap.empty, rfl, refines_empty⟩
  | singleton key value =>
      obtain ⟨revision, hinsert, hrefined⟩ := refines_empty.insert_ok key value
      exact ⟨revision.map, by rw [Step.apply, IntMap.singleton, hinsert]; rfl, hrefined⟩
  | insert key value =>
      obtain ⟨revision, hinsert, hrefined⟩ := hrefines.insert_ok key value
      exact ⟨revision.map, by rw [Step.apply, hinsert]; rfl, hrefined⟩
  | set key value? =>
      cases value? with
      | some value =>
          obtain ⟨revision, hinsert, hrefined⟩ := hrefines.insert_ok key value
          exact ⟨revision.map, by rw [Step.apply, IntMap.set, hinsert]; rfl, hrefined⟩
      | none =>
          obtain ⟨revision, hremove, hrefined⟩ := hrefines.remove_ok key
          exact ⟨revision.map, by rw [Step.apply, IntMap.set, hremove]; rfl, hrefined⟩
  | remove key =>
      obtain ⟨revision, hremove, hrefined⟩ := hrefines.remove_ok key
      exact ⟨revision.map, by rw [Step.apply, hremove]; rfl, hrefined⟩
  | removeAll test state =>
      obtain ⟨revision, state', hremove, hrefined⟩ := hrefines.removeAll_ok test state
      exact ⟨revision.map, by rw [Step.apply, hremove]; rfl, hrefined⟩
  | ofList entries =>
      obtain ⟨revision, hinsert, hrefined⟩ :=
        insertAll_ok ⟨IntMap.empty, []⟩ refines_empty entries
      exact ⟨revision.map, by rw [Step.apply, IntMap.ofList, IntMap.insertAll, hinsert]; rfl, hrefined⟩
  | insertAll entries =>
      obtain ⟨revision, hinsert, hrefined⟩ := insertAll_ok ⟨map, []⟩ hrefines entries
      exact ⟨revision.map, by rw [Step.apply, IntMap.insertAll, hinsert]; rfl, hrefined⟩
  | clone => exact ⟨map, rfl, hrefines⟩

theorem of_apply (hrefines : map.Refines model) {step : Step V} {next : IntMap V}
    (hnext : step.apply map = .ok next) : next.Refines (step.replay model) := by
  obtain ⟨taken, happly, hrefined⟩ := hrefines.apply_ok step
  rw [hnext] at happly
  cases happly
  exact hrefined

end Refines

/-! ### Reachable maps -/

/-- The maps that any sequence of steps makes. -/
inductive Reachable : IntMap V → Prop
  | empty : Reachable empty
  | step {map next : IntMap V} (step : Step V) (hmap : Reachable map)
      (hnext : step.apply map = .ok next) : Reachable next

theorem Reachable.refines {map : IntMap V} (hmap : map.Reachable) : ∃ model, map.Refines model := by
  induction hmap with
  | empty => exact ⟨∅, refines_empty⟩
  | step step _ hnext ih =>
      obtain ⟨model, hrefines⟩ := ih
      exact ⟨step.replay model, hrefines.of_apply hnext⟩

theorem Reachable.sound {map : IntMap V} (hmap : map.Reachable) : map.Sound := by
  obtain ⟨model, hrefines⟩ := hmap.refines
  exact hrefines.sound

end IntMap

namespace History

open IntMap

theorem getD_refines {versions : List (IntMap V)} {models : List (FiniteMap V)}
    (hrefines : List.Forall₂ Refines versions models) (origin : Nat) :
    Refines (versions.getD origin .empty) (models.getD origin ∅) := by
  induction hrefines generalizing origin with
  | nil => exact refines_empty
  | cons hfirst _ ih =>
      cases origin with
      | zero => exact hfirst
      | succ origin => exact ih origin

theorem runFrom_ok {versions : List (IntMap V)} {models : List (FiniteMap V)}
    (hrefines : List.Forall₂ Refines versions models) (history : History V) :
    ∃ later, runFrom versions history = .ok later ∧
      List.Forall₂ Refines later (replayFrom models history) := by
  induction history generalizing versions models with
  | nil => exact ⟨versions, rfl, hrefines⟩
  | cons move rest ih =>
      obtain ⟨origin, step⟩ := move
      obtain ⟨next, hnext, hrefined⟩ := (getD_refines hrefines origin).apply_ok step
      obtain ⟨later, hlater, hrest⟩ :=
        ih (List.rel_append hrefines (.cons hrefined .nil))
      refine ⟨later, ?_, hrest⟩
      rw [runFrom, hnext]
      exact hlater

/-- **Refinement.** Every version of every history represents the finite map that the same steps give
when they are taken by ordinary finite maps. -/
theorem run_represents (history : History V) :
    ∃ versions, history.run = .ok versions ∧
      List.Forall₂ Represents versions history.replay := by
  obtain ⟨versions, hrun, hrefines⟩ := runFrom_ok (.cons refines_empty .nil) history
  exact ⟨versions, hrun, hrefines.imp fun _ _ hversion => hversion.represents⟩

end History

end RadixMap
