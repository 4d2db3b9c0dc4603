import Mathlib
import RadixMap.Address
import RadixMap.Proofs.Sieve

/-!
# Finite maps

Ordinary finite maps from signed keys to values, which histories of maps are measured against. Bulk
removal goes through the entries in ascending order of their keys' addresses and erases the keys of
the values that the test rejects.
-/

namespace RadixMap

abbrev FiniteMap (V : Type) := Finmap fun _ : Int32 => V

namespace FiniteMap

variable {V σ : Type}

def insertAll (model : FiniteMap V) (entries : List (Int32 × V)) : FiniteMap V :=
  entries.foldl (fun model entry => model.insert entry.1 entry.2) model

/-- The order of the addresses: negative keys come last. -/
def AddressLE (left right : Int32) : Prop :=
  (Address.ofKey left).toNat ≤ (Address.ofKey right).toNat

instance : DecidableRel AddressLE := fun _ _ => Nat.decLe _ _

instance : Std.Total AddressLE := ⟨fun _ _ => Nat.le_total _ _⟩

instance : IsTrans Int32 AddressLE := ⟨fun _ _ _ => Nat.le_trans⟩

theorem ofKey_injective : Function.Injective Address.ofKey := fun left right heq => by
  rw [← Int32.toInt32_toUInt32 left, ← Int32.toInt32_toUInt32 right]
  exact congrArg UInt32.toInt32 heq

instance : Std.Antisymm AddressLE :=
  ⟨fun _ _ hle hge => ofKey_injective (UInt32.toNat_inj.mp (Nat.le_antisymm hle hge))⟩

/-- The entries in the order of the keys' addresses. -/
noncomputable def entries (model : FiniteMap V) : List (Int32 × V) :=
  (model.keys.sort AddressLE).filterMap fun key => (model.lookup key).map (key, ·)

/-- Puts the values of some entries to a test, one after another, and erases the rejected ones. -/
def eraseRejected (test : V → σ → Bool × σ) (model : FiniteMap V) (state : σ) :
    List (Int32 × V) → FiniteMap V
  | [] => model
  | (key, value) :: rest =>
    let (rejected, state) := test value state
    eraseRejected test (if rejected then model.erase key else model) state rest

noncomputable def removeAll (test : V → σ → Bool × σ) (state : σ) (model : FiniteMap V) :
    FiniteMap V :=
  eraseRejected test model state model.entries

theorem mem_entries {model : FiniteMap V} {key : Int32} {value : V} :
    (key, value) ∈ model.entries ↔ model.lookup key = some value := by
  rw [entries, List.mem_filterMap]
  constructor
  · rintro ⟨other, -, hother⟩
    obtain ⟨held, hheld, heq⟩ := Option.map_eq_some_iff.mp hother
    cases heq
    exact hheld
  · intro hvalue
    refine ⟨key, ?_, by rw [hvalue]; rfl⟩
    rw [Finset.mem_sort, Finmap.mem_keys]
    exact Finmap.mem_of_lookup_eq_some hvalue

theorem pairwise_entries (model : FiniteMap V) :
    model.entries.Pairwise fun left right =>
      (Address.ofKey left.1).toNat < (Address.ofKey right.1).toNat := by
  have hsorted : (model.keys.sort AddressLE).Pairwise fun left right =>
      (Address.ofKey left).toNat < (Address.ofKey right).toNat := by
    refine (model.keys.pairwise_sort AddressLE).imp₂ ?_ (model.keys.sort_nodup AddressLE)
    intro left right hle hne
    refine lt_of_le_of_ne hle fun heq => hne (ofKey_injective (UInt32.toNat_inj.mp heq))
  rw [entries, List.pairwise_filterMap]
  refine hsorted.imp ?_
  intro left right hlt first hfirst second hsecond
  obtain ⟨_, -, rfl⟩ := Option.map_eq_some_iff.mp hfirst
  obtain ⟨_, -, rfl⟩ := Option.map_eq_some_iff.mp hsecond
  exact hlt

/-- Of inserted entries with different keys, each is found. -/
theorem lookup_insertAll {entries : List (Int32 × V)} (hnodup : (entries.map (·.1)).Nodup)
    (model : FiniteMap V) (key : Int32) (value : V) :
    (model.insertAll entries).lookup key = some value ↔
      (key, value) ∈ entries ∨ (key ∉ entries.map (·.1) ∧ model.lookup key = some value) := by
  induction entries generalizing model with
  | nil => simp [insertAll]
  | cons entry rest ih =>
      obtain ⟨first, held⟩ := entry
      rw [List.map_cons, List.nodup_cons] at hnodup
      obtain ⟨hfirst, hnodup⟩ := hnodup
      have hrest := ih hnodup (model.insert first held)
      rw [insertAll] at hrest
      rw [insertAll, List.foldl_cons, hrest]
      by_cases hkey : key = first
      · subst hkey
        have habsent : (key, value) ∉ rest :=
          fun hmem => hfirst (List.mem_map.mpr ⟨_, hmem, rfl⟩)
        simp [habsent, hfirst, eq_comm]
      · simp [hkey, Finmap.lookup_insert_of_ne _ hkey]

/-- Of inserted entries with the same key, the last is found. -/
theorem lookup_insertAll_reverse (model : FiniteMap V) (entries : List (Int32 × V)) (key : Int32) :
    (model.insertAll entries).lookup key = (entries.reverse.lookup key).or (model.lookup key) := by
  induction entries generalizing model with
  | nil => simp [insertAll]
  | cons entry rest ih =>
      obtain ⟨first, held⟩ := entry
      have hrest := ih (model.insert first held)
      rw [insertAll] at hrest
      rw [insertAll, List.foldl_cons, hrest, List.reverse_cons, List.lookup_append, Option.or_assoc]
      congr 1
      by_cases hkey : key = first
      · subst hkey
        simp
      · simp [List.lookup, beq_eq_false_iff_ne.mpr hkey, Finmap.lookup_insert_of_ne _ hkey]

theorem mem_insertAll (model : FiniteMap V) (entries : List (Int32 × V)) (key : Int32) :
    key ∈ model.insertAll entries ↔ key ∈ entries.map (·.1) ∨ key ∈ model := by
  induction entries generalizing model with
  | nil => simp [insertAll]
  | cons entry rest ih =>
      have hrest := ih (model.insert entry.1 entry.2)
      rw [insertAll] at hrest
      rw [insertAll, List.foldl_cons, hrest, Finmap.mem_insert, List.map_cons, List.mem_cons,
        or_left_comm, or_assoc]

theorem lookup_eraseRejected {test : V → σ → Bool × σ} {model : FiniteMap V} {state : σ}
    {entries : List (Int32 × V)} (hnodup : (entries.map (·.1)).Nodup)
    (hheld : ∀ entry ∈ entries, model.lookup entry.1 = some entry.2) (key : Int32) (value : V) :
    (eraseRejected test model state entries).lookup key = some value ↔
      (key, value) ∈ (sieve test entries state).1 ∨
        (key ∉ entries.map (·.1) ∧ model.lookup key = some value) := by
  induction entries generalizing model state with
  | nil => simp [eraseRejected, sieve]
  | cons entry rest ih =>
      obtain ⟨first, held⟩ := entry
      rw [List.map_cons, List.nodup_cons] at hnodup
      obtain ⟨hfirst, hnodup⟩ := hnodup
      have habsent : ∀ other, (first, other) ∉ rest :=
        fun other hmem => hfirst (List.mem_map.mpr ⟨_, hmem, rfl⟩)
      have hrest : ∀ entry ∈ rest, model.lookup entry.1 = some entry.2 :=
        fun entry hmem => hheld entry (List.mem_cons_of_mem _ hmem)
      rw [eraseRejected, sieve, List.map_cons, List.mem_cons, not_or]
      by_cases hrejected : (test held state).1 = true
      · have hkept : ∀ entry ∈ rest, (model.erase first).lookup entry.1 = some entry.2 := by
          intro entry hmem
          have hne : entry.1 ≠ first := by
            rintro rfl
            exact habsent entry.2 hmem
          rw [Finmap.lookup_erase_ne hne]
          exact hrest entry hmem
        simp only [if_pos hrejected]
        rw [ih hnodup hkept]
        by_cases hkey : key = first
        · subst hkey
          simp [Finmap.lookup_erase]
        · simp [hkey, Finmap.lookup_erase_ne hkey]
      · simp only [if_neg hrejected]
        rw [ih hnodup hrest, List.mem_cons]
        by_cases hkey : key = first
        · subst hkey
          have hvalue := hheld _ List.mem_cons_self
          have hpassed : (key, value) ∉ (sieve test rest (test held state).2).1 :=
            fun hmem => habsent value ((sieve_sublist test rest _).subset hmem)
          simp [habsent, hvalue, hpassed, eq_comm]
        · simp [hkey]

/-- After a bulk removal, the entries are those that the test lets pass. -/
theorem lookup_removeAll (test : V → σ → Bool × σ) (state : σ) (model : FiniteMap V) (key : Int32)
    (value : V) : (model.removeAll test state).lookup key = some value ↔
      (key, value) ∈ (sieve test model.entries state).1 := by
  have hnodup :=
    nodup_keys_of_ascending (fun key => (Address.ofKey key).toNat) model.pairwise_entries
  rw [removeAll, lookup_eraseRejected hnodup fun entry => mem_entries.mp]
  refine or_iff_left ?_
  rintro ⟨habsent, hvalue⟩
  exact habsent (List.mem_map_of_mem (mem_entries.mpr hvalue))

end FiniteMap

end RadixMap
