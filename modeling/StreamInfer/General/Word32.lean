import Mathlib

/-! Words of four bytes, the most significant first. Writing a number keeps its
remainder modulo `2 ^ 32`. -/

namespace StreamInfer.General.Word32

def toBytes (n : ℕ) : List UInt8 :=
  [.ofNat (n / 2 ^ 24), .ofNat (n / 2 ^ 16), .ofNat (n / 2 ^ 8), .ofNat n]

/-- The number in the first four bytes. -/
def ofBytes (bytes : List UInt8) : ℕ :=
  (bytes.take 4).foldl (fun n b => n * 256 + b.toNat) 0

@[simp] theorem length_toBytes (n : ℕ) : (toBytes n).length = 4 := rfl

theorem ofBytes_toBytes (n : ℕ) (rest : List UInt8) : ofBytes (toBytes n ++ rest) = n % 2 ^ 32 := by
  have hread : ofBytes (toBytes n ++ rest) =
      (((0 * 256 + n / 2 ^ 24 % 256) * 256 + n / 2 ^ 16 % 256) * 256 + n / 2 ^ 8 % 256) * 256 +
        n % 256 := by
    simp [ofBytes, toBytes]
  rw [hread]
  omega

end StreamInfer.General.Word32
