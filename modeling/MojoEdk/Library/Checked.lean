import Mathlib.Data.List.Basic

/-!
# Checked computations

A program without checks of its own, with a record of what it does that may go wrong:
it accesses memory, subtracts unsigned numbers and divides. A *checked* computation
(`Checked`) has a value, and the operations on the way to it. It is *sound* if none of
them goes wrong; then the value is the one of the program.
-/

namespace MojoEdk

/-- An operation that may go wrong: the access to `size` bytes at `offset`, in an area
    of memory; the difference of unsigned numbers; a division. -/
inductive Operation
  | access (area offset size : ℕ)
  | difference (a b : ℕ)
  | division (divisor : ℕ)
  deriving DecidableEq

namespace Operation

/-- The operation does not go wrong: it stays in the area, does not wrap around, and
    does not divide by zero. -/
def Sound : Operation → Prop
  | access area offset size => offset + size ≤ area
  | difference a b => b ≤ a
  | division divisor => divisor ≠ 0

instance : DecidablePred Sound
  | access _ _ _ => inferInstanceAs (Decidable (_ ≤ _))
  | difference _ _ => inferInstanceAs (Decidable (_ ≤ _))
  | division _ => inferInstanceAs (Decidable (_ ≠ _))

end Operation

/-- A value, and the operations that computed it. -/
structure Checked (α : Type*) where
  operations : List Operation
  value : α

namespace Checked

variable {α β : Type*}

instance : Monad Checked where
  pure a := ⟨[], a⟩
  bind x f := ⟨x.operations ++ (f x.value).operations, (f x.value).value⟩

@[simp] theorem value_pure (a : α) : (pure a : Checked α).value = a := rfl

/-- What a checked computation gives does not depend on the checks. -/
@[simp] theorem value_bind {α β : Type _} (x : Checked α) (f : α → Checked β) :
    (x >>= f).value = (f x.value).value := rfl

/-- No operation of a computation goes wrong. -/
def Sound (x : Checked α) : Prop := ∀ op ∈ x.operations, op.Sound

instance (x : Checked α) : Decidable x.Sound :=
  inferInstanceAs (Decidable (∀ op ∈ x.operations, op.Sound))

@[simp] theorem sound_pure (a : α) : (pure a : Checked α).Sound := nofun

/-- A computation is sound if each part of it is. -/
@[simp] theorem sound_bind {α β : Type _} {x : Checked α} {f : α → Checked β} :
    (x >>= f).Sound ↔ x.Sound ∧ (f x.value).Sound := List.forall_mem_append

/-- The access to `size` bytes at `offset`, in an area. -/
def access (area offset size : ℕ) : Checked PUnit := ⟨[.access area offset size], ⟨⟩⟩

@[simp] theorem sound_access {area offset size : ℕ} :
    (access area offset size).Sound ↔ offset + size ≤ area := List.forall_mem_singleton

/-- The access is made under a condition. -/
def accessIf (c : Prop) [Decidable c] (area offset size : ℕ) : Checked PUnit :=
  if c then access area offset size else pure ⟨⟩

@[simp] theorem sound_accessIf {c : Prop} [Decidable c] {area offset size : ℕ} :
    (accessIf c area offset size).Sound ↔ (c → offset + size ≤ area) := by
  rw [accessIf]
  split_ifs with h
  · rw [sound_access]
    exact ⟨fun hle _ => hle, fun hle => hle h⟩
  · exact ⟨fun _ hc => absurd hc h, fun _ => sound_pure _⟩

/-- The difference `a - b` of unsigned numbers. -/
def subtract (a b : ℕ) : Checked PUnit := ⟨[.difference a b], ⟨⟩⟩

@[simp] theorem sound_subtract {a b : ℕ} : (subtract a b).Sound ↔ b ≤ a :=
  List.forall_mem_singleton

/-- A division, or its remainder. -/
def divide (divisor : ℕ) : Checked PUnit := ⟨[.division divisor], ⟨⟩⟩

@[simp] theorem sound_divide {divisor : ℕ} : (divide divisor).Sound ↔ divisor ≠ 0 :=
  List.forall_mem_singleton

/-! ## Results of sound computations -/

section Gives

variable {α β : Type _} {x y : Checked α} {p : α → Prop} {q : β → Prop}

/-- A computation is sound, and its value satisfies a property. -/
def Gives (x : Checked α) (p : α → Prop) : Prop := x.Sound ∧ p x.value

/-- A value that is given is given without checks. -/
theorem gives_pure {a : α} (h : p a) : (pure a : Checked α).Gives p := ⟨sound_pure a, h⟩

/-- Both branches give what is asked for. -/
theorem Gives.ite {c : Prop} [Decidable c] (hx : c → x.Gives p) (hy : ¬c → y.Gives p) :
    (if c then x else y).Gives p := by
  split_ifs with h
  · exact hx h
  · exact hy h

/-- A computation follows a sound one. -/
theorem Gives.seq {f : α → Checked β} (hx : x.Sound) (hf : (f x.value).Gives q) :
    (x >>= f).Gives q :=
  ⟨sound_bind.2 ⟨hx, hf.1⟩, hf.2⟩

end Gives

end Checked

end MojoEdk
