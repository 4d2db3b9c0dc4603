import Mathlib
import RadixMap.Fault

/-!
# Checked computations without faults

A checked computation whose steps all return a value can be run by rewriting.
-/

namespace RadixMap.Checked

variable {α β : Type}

@[simp]
theorem ok_bind (value : α) (next : α → Checked β) :
    ((.ok value : Checked α) >>= next) = next value := rfl

@[simp]
theorem map_ok (f : α → β) (value : α) : f <$> (.ok value : Checked α) = .ok (f value) := rfl

theorem pure_eq (value : α) : (pure value : Checked α) = .ok value := rfl

theorem bind_eq_ok {checked : Checked α} {next : α → Checked β} {result : β}
    (hbind : checked >>= next = .ok result) :
    ∃ value, checked = .ok value ∧ next value = .ok result := by
  cases checked with
  | error fault => cases hbind
  | ok value => exact ⟨value, rfl, hbind⟩

theorem of_eq_ok {checked : Checked α} {property : α → Prop} {result : α}
    (hexists : ∃ value, checked = .ok value ∧ property value) (hresult : checked = .ok result) :
    property result := by
  obtain ⟨value, hvalue, hproperty⟩ := hexists
  rw [hvalue] at hresult
  exact Except.ok.inj hresult ▸ hproperty

theorem mapM_eq_pure {m : Type → Type} [Monad m] [LawfulMonad m] {f : α → m β} {g : α → β}
    {items : List α} (hitems : ∀ item ∈ items, f item = pure (g item)) :
    items.mapM f = pure (items.map g) := by
  induction items with
  | nil => rfl
  | cons item items ih =>
      rw [List.mapM_cons, hitems item List.mem_cons_self, pure_bind,
        ih fun other hmem => hitems other (List.mem_cons_of_mem item hmem), pure_bind, List.map_cons]

theorem mapM_eq_ok {f : α → Checked β} {g : α → β} {items : List α}
    (hitems : ∀ item ∈ items, f item = .ok (g item)) : items.mapM f = .ok (items.map g) :=
  mapM_eq_pure hitems

theorem allM_eq_ok {f : α → Checked Bool} {g : α → Bool} {items : List α}
    (hitems : ∀ item ∈ items, f item = .ok (g item)) : items.allM f = .ok (items.all g) := by
  induction items with
  | nil => rfl
  | cons item items ih =>
      rw [List.allM, hitems item List.mem_cons_self, ok_bind, List.all_cons,
        ih fun other hmem => hitems other (List.mem_cons_of_mem item hmem)]
      cases g item <;> rfl

end RadixMap.Checked
