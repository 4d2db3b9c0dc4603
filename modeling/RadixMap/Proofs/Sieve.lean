import Mathlib

/-!
# Ascending lists and tests that remember

A list in ascending order of some key is known by its members. A test with a memory goes through a
list from its first entry to its last; cutting the list in two does not change what the test sees. The
calls of the test, each with its answer, tell which entries it lets pass.
-/

namespace RadixMap

variable {α V σ : Type}

theorem ascending_ext (key : α → Nat) {left right : List α}
    (hleft : left.Pairwise fun first second => key first < key second)
    (hright : right.Pairwise fun first second => key first < key second)
    (hmem : ∀ item, item ∈ left ↔ item ∈ right) : left = right := by
  have hirrefl : Std.Irrefl fun first second : α => key first < key second :=
    ⟨fun item => lt_irrefl (key item)⟩
  have hantisymm : Std.Antisymm fun first second : α => key first < key second :=
    ⟨fun _ _ hlt hgt => absurd hlt (Nat.lt_asymm hgt)⟩
  exact hleft.eq_of_mem_iff hright hmem

theorem nodup_keys_of_ascending (key : α → Nat) {entries : List (α × V)}
    (hsorted : entries.Pairwise fun first second => key first.1 < key second.1) :
    (entries.map (·.1)).Nodup := by
  rw [List.Nodup, List.pairwise_map]
  refine hsorted.imp ?_
  intro first second hlt heq
  rw [heq] at hlt
  exact lt_irrefl _ hlt

/-- The entries for which the test does not hold, and what it remembers after the last. -/
def sieve (test : V → σ → Bool × σ) : List (α × V) → σ → List (α × V) × σ
  | [], state => ([], state)
  | entry :: rest, state =>
    let tested := test entry.2 state
    let others := sieve test rest tested.2
    (if tested.1 then others.1 else entry :: others.1, others.2)

section Sieve

variable (test : V → σ → Bool × σ)

theorem sieve_append (front back : List (α × V)) (state : σ) :
    sieve test (front ++ back) state =
      ((sieve test front state).1 ++ (sieve test back (sieve test front state).2).1,
        (sieve test back (sieve test front state).2).2) := by
  induction front generalizing state with
  | nil => rfl
  | cons entry rest ih =>
      rw [List.cons_append, sieve, ih, sieve]
      by_cases hgone : (test entry.2 state).1 = true
      · simp only [if_pos hgone]
      · simp only [if_neg hgone, List.cons_append]

theorem sieve_sublist (entries : List (α × V)) (state : σ) :
    (sieve test entries state).1.Sublist entries := by
  induction entries generalizing state with
  | nil => exact List.Sublist.refl _
  | cons entry rest ih =>
      rw [sieve]
      by_cases hgone : (test entry.2 state).1 = true
      · simp only [if_pos hgone]
        exact (ih _).cons entry
      · simp only [if_neg hgone]
        exact (ih _).cons_cons entry

theorem sieve_map {β : Type} (rename : α → β) (entries : List (α × V)) (state : σ) :
    sieve test (entries.map fun entry => (rename entry.1, entry.2)) state =
      ((sieve test entries state).1.map fun entry => (rename entry.1, entry.2),
        (sieve test entries state).2) := by
  induction entries generalizing state with
  | nil => rfl
  | cons entry rest ih =>
      rw [List.map_cons, sieve, ih, sieve]
      by_cases hgone : (test entry.2 state).1 = true
      · simp only [if_pos hgone]
      · simp only [if_neg hgone, List.map_cons]

end Sieve

/-! ### Calls of a test -/

/-- The calls of a test to which values are put one after another, each value with the answer. -/
def callsOn (test : V → σ → Bool × σ) : List V → σ → List (V × Bool)
  | [], _ => []
  | value :: rest, state =>
    (value, (test value state).1) :: callsOn test rest (test value state).2

/-- The test, with a record of its calls beside what it remembers. -/
def recorded (test : V → σ → Bool × σ) (value : V) (memory : σ × List (V × Bool)) :
    Bool × σ × List (V × Bool) :=
  let (rejected, state) := test value memory.1
  (rejected, state, memory.2 ++ [(value, rejected)])

/-- The entries whose own call was not answered with a rejection. -/
def unrejected (entries : List (α × V)) (calls : List (V × Bool)) : List (α × V) :=
  ((entries.zip calls).filter fun called => !called.2.2).map (·.1)

section Unrejected

variable {entries : List (α × V)} {calls : List (V × Bool)}

theorem unrejected_cons (entry : α × V) (call : V × Bool) :
    unrejected (entry :: entries) (call :: calls) =
      if call.2 then unrejected entries calls else entry :: unrejected entries calls := by
  cases hanswer : call.2 <;> simp [unrejected, hanswer]

theorem unrejected_sublist (hlength : entries.length = calls.length) :
    (unrejected entries calls).Sublist entries := by
  rw [unrejected]
  conv_rhs => rw [← List.map_fst_zip hlength.le]
  exact List.filter_sublist.map _

theorem unrejected_eq_nil_iff (hlength : entries.length = calls.length) :
    unrejected entries calls = [] ↔ ∀ call ∈ calls, call.2 = true := by
  rw [unrejected, List.map_eq_nil_iff, List.filter_eq_nil_iff]
  conv_rhs => rw [← List.map_snd_zip hlength.ge, List.forall_mem_map]
  simp only [Bool.not_eq_true', Bool.not_eq_false]

theorem unrejected_eq_self_iff (hlength : entries.length = calls.length) :
    unrejected entries calls = entries ↔ ∀ call ∈ calls, call.2 = false := by
  have hzip : (entries.zip calls).length = entries.length := by
    rw [← List.length_map (·.1), List.map_fst_zip hlength.le]
  calc unrejected entries calls = entries
      ↔ (unrejected entries calls).length = entries.length :=
        (unrejected_sublist hlength).length_eq.symm
    _ ↔ ∀ called ∈ entries.zip calls, (!called.2.2) = true := by
        rw [unrejected, List.length_map, ← hzip, List.length_filter_eq_length_iff]
    _ ↔ ∀ call ∈ calls, call.2 = false := by
        conv_rhs => rw [← List.map_snd_zip hlength.ge, List.forall_mem_map]
        simp only [Bool.not_eq_true']

end Unrejected

section Calls

variable (test : V → σ → Bool × σ)

theorem map_fst_callsOn (values : List V) (state : σ) :
    (callsOn test values state).map (·.1) = values := by
  induction values generalizing state with
  | nil => rfl
  | cons value rest ih => rw [callsOn, List.map_cons, ih]

theorem length_callsOn (values : List V) (state : σ) :
    (callsOn test values state).length = values.length := by
  rw [← List.length_map (·.1), map_fst_callsOn]

theorem length_callsOn_map (entries : List (α × V)) (state : σ) :
    entries.length = (callsOn test (entries.map (·.2)) state).length := by
  rw [length_callsOn, List.length_map]

theorem sieve_eq_unrejected (entries : List (α × V)) (state : σ) :
    (sieve test entries state).1 = unrejected entries (callsOn test (entries.map (·.2)) state) := by
  induction entries generalizing state with
  | nil => rfl
  | cons entry rest ih => rw [sieve, ih, List.map_cons, callsOn, unrejected_cons]

theorem sieve_eq_self_iff {entries : List (α × V)} {state : σ} :
    (sieve test entries state).1 = entries ↔
      ∀ call ∈ callsOn test (entries.map (·.2)) state, call.2 = false := by
  rw [sieve_eq_unrejected, unrejected_eq_self_iff (length_callsOn_map test entries state)]

theorem sieve_recorded (entries : List (α × V)) (state : σ) (calls : List (V × Bool)) :
    sieve (recorded test) entries (state, calls) =
      ((sieve test entries state).1, (sieve test entries state).2,
        calls ++ callsOn test (entries.map (·.2)) state) := by
  induction entries generalizing state calls with
  | nil => simp [sieve, callsOn]
  | cons entry rest ih => simp [sieve, recorded, callsOn, ih]

theorem callsOn_recorded (values : List V) (state : σ) (calls : List (V × Bool)) :
    callsOn (recorded test) values (state, calls) = callsOn test values state := by
  induction values generalizing state calls with
  | nil => rfl
  | cons value rest ih => simp only [callsOn, recorded, ih]

end Calls

end RadixMap
