import Mathlib

set_option autoImplicit false

/-! # `FreelistProtection`

The integrity policy of a freelist: `sign` computes a 32-bit tag from a link and a nonce, `verify`
checks a stored tag. A value of the structure is a policy together with its key.
-/

namespace ForgeAlloc

structure FreelistProtection where
  sign : Nat → Nat → Nat
  verify : Nat → Nat → Nat → Bool

/-- `verify` accepts what `sign` produced, and the tag is a `u32`. -/
structure FreelistProtection.Sound (M : FreelistProtection) : Prop where
  sign_lt : ∀ nextIdx nonce, M.sign nextIdx nonce < 2 ^ 32
  verify_sign : ∀ nextIdx nonce, M.verify nextIdx (M.sign nextIdx nonce) nonce = true

/-- `NoProtection`. -/
def FreelistProtection.none : FreelistProtection := ⟨fun _ _ => 0, fun _ _ _ => true⟩

theorem FreelistProtection.none_sound : FreelistProtection.none.Sound :=
  ⟨fun _ _ => Nat.two_pow_pos 32, fun _ _ => rfl⟩

end ForgeAlloc
