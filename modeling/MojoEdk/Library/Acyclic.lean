import Mathlib.Logic.Relation

/-!
# Acyclic relations

Relations along which nothing leads back to itself. They stay acyclic when pairs are left
out, or when a pair is added whose second element does not lead to the first one.
-/

namespace MojoEdk

open Relation

variable {A : Type*} {r r' : A → A → Prop} {a b x y : A}

/-- Nothing leads back to itself. -/
def Acyclic (r : A → A → Prop) : Prop := ∀ a, ¬TransGen r a a

/-- Fewer edges make no cycle. -/
theorem Acyclic.mono (h : Acyclic r') (hr : ∀ x y, r x y → r' x y) : Acyclic r :=
  fun a ha => h a (ha.lift id hr)

/-- A path with a pair that was added goes through the pair or not. -/
theorem transGen_or (hr : ∀ x y, r' x y → r x y ∨ x = a ∧ y = b) (h : TransGen r' x y) :
    TransGen r x y ∨ ReflTransGen r x a ∧ ReflTransGen r b y := by
  induction h with
  | single h =>
    rcases hr _ _ h with h | ⟨rfl, rfl⟩
    · exact .inl (.single h)
    · exact .inr ⟨.refl, .refl⟩
  | tail _ h ih =>
    rcases hr _ _ h with h | ⟨rfl, rfl⟩
    · exact ih.imp (fun ih => ih.tail h) fun ih => ⟨ih.1, ih.2.tail h⟩
    · exact .inr ⟨ih.elim TransGen.to_reflTransGen And.left, .refl⟩

/-- An edge makes no cycle if there is no way back. -/
theorem Acyclic.add (h : Acyclic r) (hr : ∀ x y, r' x y → r x y ∨ x = a ∧ y = b)
    (hba : ¬ReflTransGen r b a) : Acyclic r' := fun x hx => by
  rcases transGen_or hr hx with hx | ⟨hxa, hbx⟩
  · exact h x hx
  · exact hba (hbx.trans hxa)

end MojoEdk
