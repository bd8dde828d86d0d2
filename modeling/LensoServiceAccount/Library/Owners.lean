import Mathlib.Data.Set.Insert

/-! Resources that have at most one owner: opened by somebody, handed on, and lost, but never
shared and never opened twice. -/

/-- Nobody shares a resource, and every resource that is owned has been opened. -/
structure Owners {H α : Type*} (owns : H → α → Prop) (opened : Set α) : Prop where
  unique : ∀ {h h' a}, owns h a → owns h' a → h = h'
  known : ∀ {h a}, owns h a → a ∈ opened

namespace Owners
variable {H α : Type*} {owns owns' : H → α → Prop} {opened : Set α}

/-- Owners may lose what they own. -/
theorem shrink (ho : Owners owns opened) (hs : ∀ h a, owns' h a → owns h a) : Owners owns' opened where
  unique h h' := ho.unique (hs _ _ h) (hs _ _ h')
  known h := ho.known (hs _ _ h)

/-- What is opened for the first time has one owner. -/
theorem acquire (ho : Owners owns opened) {g : H} {b : α} (hb : b ∉ opened)
    (hs : ∀ h a, owns' h a → owns h a ∨ h = g ∧ a = b) : Owners owns' (insert b opened) where
  unique {h h' a} hh hh' := by
    rcases hs h a hh with hold | ⟨rfl,rfl⟩
    · rcases hs h' a hh' with hold' | ⟨-,rfl⟩
      · exact ho.unique hold hold'
      · exact absurd (ho.known hold) hb
    · rcases hs h' a hh' with hold' | ⟨rfl,-⟩
      · exact absurd (ho.known hold') hb
      · rfl
  known {h a} hh := by
    rcases hs h a hh with hold | ⟨-,rfl⟩
    · exact Set.mem_insert_of_mem b (ho.known hold)
    · exact Set.mem_insert a opened

/-- A resource goes from one owner to another. -/
theorem transfer (ho : Owners owns opened) {f g : H} {b : α} (hf : owns f b)
    (hs : ∀ h a, owns' h a → owns h a ∧ h ≠ f ∨ h = g ∧ a = b) : Owners owns' opened where
  unique {h h' a} hh hh' := by
    rcases hs h a hh with ⟨hold,hne⟩ | ⟨rfl,rfl⟩
    · rcases hs h' a hh' with ⟨hold',-⟩ | ⟨-,rfl⟩
      · exact ho.unique hold hold'
      · exact absurd (ho.unique hold hf) hne
    · rcases hs h' a hh' with ⟨hold',hne⟩ | ⟨rfl,-⟩
      · exact absurd (ho.unique hold' hf) hne
      · rfl
  known {h a} hh := by
    rcases hs h a hh with ⟨hold,-⟩ | ⟨-,rfl⟩
    · exact ho.known hold
    · exact ho.known hf

end Owners
