import Mathlib.Algebra.Group.Nat.Defs
import Mathlib.Data.List.Basic

namespace AssistantHub.F32Bytes

structure F32 where
  bits : UInt32
  deriving DecidableEq, Repr

/-- The bits as a signed number, with the lower ones flipped below zero. -/
def F32.totalKey (f : F32) : Int :=
  let bits := f.bits.toInt32
  (bits ^^^ ((bits >>> 31).toUInt32 >>> 1).toInt32).toInt

/-- `total_cmp`: the total order of IEEE 754. -/
def F32.totalCmp (a b : F32) : Ordering :=
  compare a.totalKey b.totalKey

/-- From less than zero over the two zeros to the not-a-numbers. -/
example :
    F32.totalCmp ⟨0xbf800000⟩ ⟨0x80000000⟩ = .lt ∧
      F32.totalCmp ⟨0x80000000⟩ ⟨0x00000000⟩ = .lt ∧
      F32.totalCmp ⟨0x3f800000⟩ ⟨0x7fc00000⟩ = .lt := by decide

instance : Std.TransCmp F32.totalCmp where
  eq_swap {a b} := @Std.OrientedCmp.eq_swap Int compare _ a.totalKey b.totalKey
  isLE_trans {a b c} :=
    @Std.TransCmp.isLE_trans Int compare _ a.totalKey b.totalKey c.totalKey

def F32.toLeBytes (f : F32) : List UInt8 :=
  let n := f.bits.toNat
  [UInt8.ofNat n, UInt8.ofNat (n / 2 ^ 8), UInt8.ofNat (n / 2 ^ 16),
    UInt8.ofNat (n / 2 ^ 24)]

def F32.fromLeBytes (a b c d : UInt8) : F32 :=
  ⟨UInt32.ofNat (a.toNat + 2 ^ 8 * b.toNat + 2 ^ 16 * c.toNat +
    2 ^ 24 * d.toNat)⟩

def toBytes (fs : List F32) : List UInt8 :=
  fs.flatMap F32.toLeBytes

/-- The groups of four bytes as floats; up to three bytes at the end are
ignored, as `as_chunks` does. -/
def fromBytes : List UInt8 → List F32
  | a :: b :: c :: d :: rest => F32.fromLeBytes a b c d :: fromBytes rest
  | _ => []

theorem fromLeBytes_bytes (f : F32) :
    F32.fromLeBytes (UInt8.ofNat f.bits.toNat)
      (UInt8.ofNat (f.bits.toNat / 2 ^ 8)) (UInt8.ofNat (f.bits.toNat / 2 ^ 16))
      (UInt8.ofNat (f.bits.toNat / 2 ^ 24)) = f := by
  obtain ⟨bits⟩ := f
  have hbound := bits.toNat_lt
  simp only [F32.fromLeBytes, F32.mk.injEq]
  apply UInt32.toNat_inj.mp
  simp only [UInt32.toNat_ofNat', UInt8.toNat_ofNat']
  omega

theorem fromBytes_toBytes (fs : List F32) : fromBytes (toBytes fs) = fs := by
  induction fs with
  | nil => rfl
  | cons f fs ih =>
      change F32.fromLeBytes _ _ _ _ :: fromBytes (toBytes fs) = f :: fs
      rw [fromLeBytes_bytes, ih]

theorem length_toBytes (fs : List F32) : (toBytes fs).length = fs.length * 4 := by
  induction fs with
  | nil => rfl
  | cons f fs ih =>
      change (toBytes fs).length + 4 = (fs.length + 1) * 4
      omega

end AssistantHub.F32Bytes
