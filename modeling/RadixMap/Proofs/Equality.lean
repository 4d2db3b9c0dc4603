import Mathlib
import RadixMap.Proofs.History
import RadixMap.Proofs.Readers

/-!
# Equality of maps

A comparison walks one map and looks each entry up in the other. Since sizes are exact and a walk
meets every key once, no key of the other map can escape it: the answer is whether the lookups of the
two maps are equal at every key, however their staged blocks differ. Whatever laws the comparison of
values obeys, the comparison of maps obeys them too.
-/

namespace RadixMap.IntMap

open Address

variable {V : Type} {left right : IntMap V}

theorem Sound.contents_eq_iff (hleft : left.Sound) (hright : right.Sound) :
    left.contents = right.contents ↔ ∀ key, left.get? key = right.get? key := by
  constructor
  · intro hcontents key
    rw [hleft.get?_eq, hright.get?_eq, hcontents]
  · intro hsame
    funext address
    have hkey := hsame address.toKey
    rw [hleft.get?_eq, hright.get?_eq] at hkey
    exact Except.ok.inj hkey

section Comparison

variable [BEq V]

theorem Sound.equals_iff (hleft : left.Sound) (hright : right.Sound) :
    left.equals right = .ok true ↔
      ∀ address, (right.contents address == left.contents address) = true := by
  obtain ⟨same, hequals, hsame⟩ := hleft.equals_eq hright
  rw [hequals, Except.ok.injEq, hsame]

theorem Sound.beq_contents_iff (hleft : left.Sound) (hright : right.Sound) :
    (∀ address, (right.contents address == left.contents address) = true) ↔
      ∀ key, (do return (← right.get? key) == (← left.get? key)) = (.ok true : Checked Bool) := by
  have hkeys : ∀ key, (do return (← right.get? key) == (← left.get? key)) =
      (.ok (right.contents (ofKey key) == left.contents (ofKey key)) : Checked Bool) := by
    intro key
    rw [hleft.get?_eq, hright.get?_eq]
    rfl
  simp only [hkeys, Except.ok.injEq]
  exact ⟨fun hsame key => hsame (ofKey key), fun hsame address => hsame address.toKey⟩

/-- Where values are compared by equality, maps are compared by their contents. -/
theorem Sound.equals_eq_contents [LawfulBEq V] (hleft : left.Sound) (hright : right.Sound) :
    ∃ same, left.equals right = .ok same ∧ (same = true ↔ left.contents = right.contents) := by
  obtain ⟨same, hequals, hsame⟩ := hleft.equals_eq hright
  refine ⟨same, hequals, ?_⟩
  calc same = true ↔ ∀ address, (right.contents address == left.contents address) = true := hsame
    _ ↔ right.contents = left.contents := by simp only [beq_iff_eq, funext_iff]
    _ ↔ left.contents = right.contents := eq_comm

theorem Sound.equals_iff_contents [LawfulBEq V] (hleft : left.Sound) (hright : right.Sound) :
    left.equals right = .ok true ↔ left.contents = right.contents := by
  obtain ⟨same, hequals, hsame⟩ := hleft.equals_eq_contents hright
  rw [hequals, Except.ok.injEq, hsame]

theorem beq_symm_of_values [PartialEquivBEq V] {first second : Option V}
    (hsame : (first == second) = true) : (second == first) = true := by
  cases first with
  | none =>
      cases second with
      | none => rfl
      | some other => exact absurd hsame Bool.false_ne_true
  | some held =>
      cases second with
      | none => exact absurd hsame Bool.false_ne_true
      | some other =>
          rw [Option.some_beq_some] at hsame ⊢
          exact BEq.symm hsame

theorem beq_trans_of_values [PartialEquivBEq V] {first second third : Option V}
    (hsame : (first == second) = true) (hother : (second == third) = true) :
    (first == third) = true := by
  cases second with
  | none =>
      cases first with
      | none => exact hother
      | some held => exact absurd hsame Bool.false_ne_true
  | some middle =>
      cases first with
      | none => exact absurd hsame Bool.false_ne_true
      | some held =>
          cases third with
          | none => exact absurd hother Bool.false_ne_true
          | some other =>
              rw [Option.some_beq_some] at hsame hother ⊢
              exact BEq.trans hsame hother

theorem Sound.equals_self [ReflBEq V] {map : IntMap V} (hsound : map.Sound) :
    map.equals map = .ok true := by
  rw [hsound.equals_iff hsound]
  intro address
  cases map.contents address with
  | none => rfl
  | some value => exact BEq.refl value

theorem Sound.equals_symm [PartialEquivBEq V] (hleft : left.Sound) (hright : right.Sound)
    (hsame : left.equals right = .ok true) : right.equals left = .ok true := by
  rw [hleft.equals_iff hright] at hsame
  rw [hright.equals_iff hleft]
  exact fun address => beq_symm_of_values (hsame address)

theorem Sound.equals_trans [PartialEquivBEq V] {middle : IntMap V} (hleft : left.Sound)
    (hmiddle : middle.Sound) (hright : right.Sound) (hfirst : left.equals middle = .ok true)
    (hsecond : middle.equals right = .ok true) : left.equals right = .ok true := by
  rw [hleft.equals_iff hmiddle] at hfirst
  rw [hmiddle.equals_iff hright] at hsecond
  rw [hleft.equals_iff hright]
  exact fun address => beq_trans_of_values (hsecond address) (hfirst address)

/-- **Equality is equality of contents.** Comparing maps that steps make tells whether their lookups
are equal at every key, by the comparison of the values; where that is equality, whether the lookups
are the same. The comparison of maps is symmetric and transitive if that of the values is, and an
equivalence if that of the values is one. -/
theorem reachable_equals :
    (∀ left right : IntMap V, left.Reachable → right.Reachable →
      ∃ same, left.equals right = .ok same ∧
        (same = true ↔ ∀ key,
          (do return (← right.get? key) == (← left.get? key)) = (.ok true : Checked Bool)) ∧
        ∀ [LawfulBEq V], same = true ↔ ∀ key, left.get? key = right.get? key) ∧
      (∀ [PartialEquivBEq V],
        (∀ left right : IntMap V, left.Reachable → right.Reachable →
          left.equals right = .ok true → right.equals left = .ok true) ∧
        ∀ left middle right : IntMap V, left.Reachable → middle.Reachable → right.Reachable →
          left.equals middle = .ok true → middle.equals right = .ok true →
          left.equals right = .ok true) ∧
      ∀ [EquivBEq V], Equivalence fun left right : { map : IntMap V // map.Reachable } =>
        left.1.equals right.1 = .ok true := by
  refine ⟨?answer, ⟨?symm, ?trans⟩, ?equivalence⟩
  case answer =>
    intro left right hleft hright
    obtain ⟨same, hequals, hsame⟩ := hleft.sound.equals_eq hright.sound
    refine ⟨same, hequals, hsame.trans (hleft.sound.beq_contents_iff hright.sound), ?_⟩
    intro _
    obtain ⟨other, hother, hcontents⟩ := hleft.sound.equals_eq_contents hright.sound
    obtain rfl : same = other := Except.ok.inj (hequals.symm.trans hother)
    exact hcontents.trans (hleft.sound.contents_eq_iff hright.sound)
  case symm => exact fun left right hleft hright => hleft.sound.equals_symm hright.sound
  case trans =>
    exact fun left middle right hleft hmiddle hright =>
      hleft.sound.equals_trans hmiddle.sound hright.sound
  case equivalence =>
    intro _
    exact {
      refl := fun map => map.2.sound.equals_self
      symm := fun {left right} => left.2.sound.equals_symm right.2.sound
      trans := fun {left middle right} =>
        left.2.sound.equals_trans middle.2.sound right.2.sound }

end Comparison

/-- The tries differ in the leaf of block 95: the left one lacks the write that its staged leaf has. -/
theorem equals_of_diverged :
    let stale : Trie Nat := .branch (.bitmap 5 [.leaf ⟨0, .one 3 0⟩, .leaf ⟨1, .one 6 1⟩])
    let merged : Trie Nat :=
      .branch (.bitmap 5 [.leaf ⟨2, .one 3 0⟩, .leaf ⟨1, .bitmap 192 [1, 2]⟩])
    let left : IntMap Nat :=
      ⟨3, 1, some stale, some ⟨95, ⟨1, .one 6 1⟩, ⟨2, .bitmap 192 [1, 2]⟩⟩, 3⟩
    let right : IntMap Nat := ⟨3, 1, some merged, some ⟨31, ⟨2, .one 3 0⟩, ⟨2, .one 3 0⟩⟩, 3⟩
    left.Reachable ∧ right.Reachable ∧ left.equals right = .ok true ∧
      ∀ key, left.get? key = right.get? key := by
  intro stale merged left right
  have hleft : left.Reachable :=
    .step (.insert 71 2) (.step (.ofList [(3, 0), (70, 1)]) .empty rfl) rfl
  have hright : right.Reachable :=
    .step (.ofList [(70, 1), (71, 2), (3, 0)]) .empty rfl
  have hequals : left.equals right = .ok true := by decide
  obtain ⟨same, hanswer, -, hsame⟩ := reachable_equals.1 left right hleft hright
  rw [hequals] at hanswer
  exact ⟨hleft, hright, hequals, hsame.mp (Except.ok.inj hanswer).symm⟩

end RadixMap.IntMap
