import Mathlib
import RadixMap.Proofs.NoFault
import RadixMap.Proofs.Outcomes

/-!
# Removal of an absent key

A removal can find its key absent in many places: in the staged leaf, above the root, in an empty map,
at a branch without the child, in a leaf of the trie. Wherever that is, the map stays as it was, with
its staged leaf and whatever the trie lacks of it, and so everything done with it afterwards goes as if
nothing had been asked of it.
-/

namespace RadixMap

variable {V : Type}

/-- The revision that a step makes, with the events that it records. -/
def Step.revise : Step V → IntMap V → Checked (Revision V)
  | new, _ => .ok ⟨.empty, []⟩
  | singleton key value, _ => IntMap.singleton key value
  | insert key value, map => map.insert key value
  | set key value?, map => map.set key value?
  | remove key, map => map.remove key
  | removeAll test state, map => Prod.fst <$> map.removeAll test state
  | ofList entries, _ => IntMap.ofList entries
  | insertAll entries, map => map.insertAll entries
  | clone, map => .ok ⟨map, []⟩

theorem Step.apply_eq_revise (step : Step V) (map : IntMap V) :
    step.apply map = Revision.map <$> step.revise map := by
  cases step with
  | removeAll test state =>
      rw [apply, revise]
      cases map.removeAll test state <;> rfl
  | _ => rfl

/-- What there is to see of a revision: the events of its step, the answers to some lookups, and the
readers that go through the whole map. -/
structure Report (V : Type) where
  journal : List Event
  size : Nat
  answers : List (Option V)
  entries : List (Int32 × V)
  values : List V
  dump : List (DumpLine V)

def Revision.report (revision : Revision V) (keys : List Int32) : Checked (Report V) := do
  return {
    journal := revision.journal
    size := revision.map.size
    answers := ← keys.mapM revision.map.get?
    entries := ← revision.map.entries
    values := ← revision.map.values
    dump := ← revision.map.dump }

namespace IntMap

variable {map : IntMap V} {key : Int32} {revision : Revision V}

/-- The reports on steps taken one after another, each with the lookups that follow it. -/
def transcript : List (Step V × List Int32) → IntMap V → Checked (List (Report V))
  | [], _ => .ok []
  | (step, keys) :: rest, map => do
    let revision ← step.revise map
    let report ← revision.report keys
    return report :: (← transcript rest revision.map)

theorem Sound.report_ok (hsound : revision.map.Sound) (keys : List Int32) :
    ∃ report, revision.report keys = .ok report := by
  have hanswers : keys.mapM revision.map.get? =
      .ok (keys.map fun key => revision.map.contents (Address.ofKey key)) :=
    Checked.mapM_eq_ok fun key _ => hsound.get?_eq key
  simp only [Revision.report, hanswers, hsound.entries_eq, hsound.values_eq, hsound.dump_eq,
    Checked.ok_bind, Checked.pure_eq]
  exact ⟨_, rfl⟩

theorem Reachable.revise_ok (hmap : map.Reachable) (step : Step V) :
    ∃ revision, step.revise map = .ok revision ∧ revision.map.Reachable := by
  obtain ⟨model, hrefines⟩ := hmap.refines
  obtain ⟨next, hnext, -⟩ := hrefines.apply_ok step
  have hrevise := hnext
  rw [step.apply_eq_revise] at hrevise
  cases hrevision : step.revise map with
  | error fault =>
      rw [hrevision] at hrevise
      cases hrevise
  | ok revision =>
      rw [hrevision, Checked.map_ok, Except.ok.injEq] at hrevise
      exact ⟨revision, rfl, hrevise ▸ .step step hmap hnext⟩

theorem Reachable.transcript_ok (hmap : map.Reachable) (steps : List (Step V × List Int32)) :
    ∃ reports, map.transcript steps = .ok reports := by
  induction steps generalizing map with
  | nil => exact ⟨[], rfl⟩
  | cons move rest ih =>
      obtain ⟨step, keys⟩ := move
      obtain ⟨revision, hrevise, hreachable⟩ := hmap.revise_ok step
      obtain ⟨report, hreport⟩ := hreachable.sound.report_ok keys
      obtain ⟨reports, hreports⟩ := ih hreachable
      refine ⟨report :: reports, ?_⟩
      simp only [transcript, hrevise, hreport, hreports, Checked.ok_bind, Checked.pure_eq]

/-- The revision has the map as it was, it recorded nothing, and no steps tell the two apart. -/
structure Undisturbed (map : IntMap V) (revision : Revision V) : Prop where
  size : revision.map.size = map.size
  rootLevel : revision.map.rootLevel = map.rootLevel
  root : revision.map.root = map.root
  staging : revision.map.staging = map.staging
  journal : revision.journal = []
  tree : ∀ display, ∃ text, map.tree display = .ok text ∧ revision.map.tree display = .ok text
  transcript : ∀ steps, ∃ reports, map.transcript steps = .ok reports ∧
    revision.map.transcript steps = .ok reports

theorem Reachable.undisturbed (hmap : map.Reachable) : map.Undisturbed ⟨map, []⟩ where
  size := rfl
  rootLevel := rfl
  root := rfl
  staging := rfl
  journal := rfl
  tree display := by
    obtain ⟨text, htext⟩ := hmap.sound.tree_ok display
    exact ⟨text, htext, htext⟩
  transcript steps := by
    obtain ⟨reports, hreports⟩ := hmap.transcript_ok steps
    exact ⟨reports, hreports, hreports⟩

/-- **Removing nothing.** To remove a key that a lookup does not find, by either way, leaves a map that
steps make as it was. -/
theorem reachable_remove_absent (hmap : map.Reachable) (hfree : map.get? key = .ok none) :
    ∃ revision, map.remove key = .ok revision ∧ map.set key none = .ok revision ∧
      map.Undisturbed revision := by
  have hsound := hmap.sound
  rw [hsound.get?_eq] at hfree
  obtain ⟨revision, hremove, hupdated⟩ := hsound.remove_ok key
  have hsame : revision = ⟨map, []⟩ :=
    hsound.eq_of_removed_absent (Except.ok.inj hfree) (removed_of_remove hremove) hupdated
  subst hsame
  exact ⟨⟨map, []⟩, hremove, hremove, hmap.undisturbed⟩

/-- The stale target has the key still, the staged leaf that stands for it does not. -/
theorem remove_absent_of_diverged :
    let root : Trie Nat := .branch (.bitmap 5 [.leaf ⟨0, .one 3 0⟩, .leaf ⟨1, .one 6 1⟩])
    let map : IntMap Nat := ⟨2, 1, some root, some ⟨95, ⟨1, .one 6 1⟩, ⟨3, .one 7 2⟩⟩, 4⟩
    map.Reachable ∧ map.get? 70 = .ok none ∧
      ∃ revision, map.remove 70 = .ok revision ∧ map.set 70 none = .ok revision ∧
        map.Undisturbed revision := by
  intro root map
  have hmap : map.Reachable :=
    .step (.remove 70) (.step (.insert 71 2) (.step (.ofList [(3, 0), (70, 1)]) .empty rfl) rfl) rfl
  have hfree : map.get? 70 = .ok none := by decide
  exact ⟨hmap, hfree, reachable_remove_absent hmap hfree⟩

end IntMap

end RadixMap
