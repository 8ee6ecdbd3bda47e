import Mathlib.Data.UInt
import Mathlib.Data.Nat.Notation

/-!
# Fixed-width arithmetic that remembers wrapping

`Marked α` is a value together with a mark: whether an operation on the way to it left its width.
The value is the one the machine computes, wrapped or not, so a program in this monad runs as the
original does, and one that ends without a mark has computed with exact numbers throughout.

`Yields` is the corresponding postcondition: no mark, and the value meets a predicate.  Programs are
verified with its rules (`Yields.bind`, `Yields.mono`, `yields_foldlM`) from the rules of the
operations, each of which asks for the bound under which the operation is exact.

A 128-bit expression is a natural number that `u128` reduces.  Sums and products of natural numbers
only grow, so the whole is below `2 ^ 128` exactly when no part of it wraps.
-/

namespace Wrapping

/-- A value, and whether an operation on the way to it wrapped. -/
structure Marked (α : Type) where
  val : α
  wrapped : Bool

namespace Marked

variable {α β : Type}

instance : Monad Marked where
  pure a := ⟨a, false⟩
  bind x f := ⟨(f x.val).val, x.wrapped || (f x.val).wrapped⟩

/-- Nothing wrapped, and the value meets `Q`. -/
def Yields (x : Marked α) (Q : α → Prop) : Prop := x.wrapped = false ∧ Q x.val

variable {Q : α → Prop}

lemma yields_pure {a : α} (h : Q a) : (pure a : Marked α).Yields Q := ⟨rfl, h⟩

lemma Yields.bind {R : β → Prop} {x : Marked α} {f : α → Marked β} (hx : x.Yields Q)
    (hf : ∀ a, Q a → (f a).Yields R) : (x >>= f).Yields R := by
  obtain ⟨hmark, hR⟩ := hf x.val hx.2
  exact ⟨Bool.or_eq_false_iff.mpr ⟨hx.1, hmark⟩, hR⟩

lemma Yields.mono {R : α → Prop} {x : Marked α} (hx : x.Yields Q) (h : ∀ a, Q a → R a) :
    x.Yields R :=
  ⟨hx.1, h x.val hx.2⟩

/-- A loop keeps what every turn keeps; `g` is what the turns do to the state they stand for. -/
lemma yields_foldlM {σ ι : Type} {f : α → ι → Marked α} {g : σ → ι → σ} {R : σ → α → Prop}
    {is : List ι}
    (hstep : ∀ s a, ∀ i ∈ is, R s a → (f a i).Yields (R (g s i))) {s : σ} {a : α} (h : R s a) :
    (is.foldlM f a).Yields (R (is.foldl g s)) := by
  induction is generalizing s a with
  | nil => exact yields_pure h
  | cons i is ih =>
      rw [List.foldlM_cons, List.foldl_cons]
      exact (hstep s a i List.mem_cons_self h).bind fun a' ha' =>
        ih (fun t b j hj => hstep t b j (List.mem_cons_of_mem i hj)) ha'

end Marked

open Marked

/-! ## Operations -/

def add64 (a b : UInt64) : Marked UInt64 := ⟨a + b, decide (2 ^ 64 ≤ a.toNat + b.toNat)⟩

def sub64 (a b : UInt64) : Marked UInt64 := ⟨a - b, decide (a.toNat < b.toNat)⟩

def mul64 (a b : UInt64) : Marked UInt64 := ⟨a * b, decide (2 ^ 64 ≤ a.toNat * b.toNat)⟩

/-- An expression of 128 bits. -/
def u128 (n : ℕ) : Marked ℕ := ⟨n % 2 ^ 128, decide (2 ^ 128 ≤ n)⟩

/-- The lower 64 bits of a wider number. -/
def low64 (n : ℕ) : Marked UInt64 := ⟨UInt64.ofNat n, decide (2 ^ 64 ≤ n)⟩

variable {a b : UInt64}

lemma add64_yields (h : a.toNat + b.toNat < 2 ^ 64) :
    (add64 a b).Yields fun r => r.toNat = a.toNat + b.toNat :=
  ⟨decide_eq_false (not_le.mpr h), (UInt64.toNat_add a b).trans (Nat.mod_eq_of_lt h)⟩

lemma sub64_yields (h : b.toNat ≤ a.toNat) :
    (sub64 a b).Yields fun r => r.toNat = a.toNat - b.toNat :=
  ⟨decide_eq_false (not_lt.mpr h), UInt64.toNat_sub_of_le _ _ h⟩

lemma mul64_yields (h : a.toNat * b.toNat < 2 ^ 64) :
    (mul64 a b).Yields fun r => r.toNat = a.toNat * b.toNat :=
  ⟨decide_eq_false (not_le.mpr h), (UInt64.toNat_mul a b).trans (Nat.mod_eq_of_lt h)⟩

lemma u128_yields {n : ℕ} (h : n < 2 ^ 128) : (u128 n).Yields fun r => r = n :=
  ⟨decide_eq_false (not_le.mpr h), Nat.mod_eq_of_lt h⟩

lemma low64_yields {n : ℕ} (h : n < 2 ^ 64) : (low64 n).Yields fun r => r.toNat = n :=
  ⟨decide_eq_false (not_le.mpr h), UInt64.toNat_ofNat_of_lt' h⟩

end Wrapping
