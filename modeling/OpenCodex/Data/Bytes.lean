import Mathlib.Data.List.Infix
import Mathlib.Algebra.Order.Ring.Nat

/-!
# Numbers in bytes, and bytes at positions

A binary format puts numbers into so many bytes, the most significant first, and says by position
where each thing stands.  `BigEndian.bytes` and `BigEndian.value` are the two directions of the
former, inverse to each other for the numbers that fit (`BigEndian.value_bytes`).  `Stands buf piece
p` says that a piece of bytes stands in a buffer at a position: a slice there gives the piece back
(`Stands.slice`), and a piece that is made of two stands there as its parts, one behind the other
(`Stands.left`, `Stands.right`).
-/

set_option autoImplicit false

open List

universe u

/-! ## Slices -/

/-- So many letters from a position on. -/
def List.slice {α : Type u} (buf : List α) (p n : ℕ) : List α := (buf.drop p).take n

/-- The piece stands in the buffer at that position. -/
def Stands {α : Type u} (buf piece : List α) (p : ℕ) : Prop :=
  ∃ before after, buf = before ++ (piece ++ after) ∧ before.length = p

namespace Stands

variable {α : Type u} {buf piece first second : List α} {p : ℕ}

theorem whole (buf : List α) : Stands buf buf 0 := ⟨[], [], by simp, rfl⟩

theorem head (piece after : List α) : Stands (piece ++ after) piece 0 := ⟨[], after, rfl, rfl⟩

theorem slice (h : Stands buf piece p) : buf.slice p piece.length = piece := by
  obtain ⟨before, after, rfl, rfl⟩ := h
  rw [slice, drop_left, take_left]

theorem bound (h : Stands buf piece p) : p + piece.length ≤ buf.length := by
  obtain ⟨before, after, rfl, rfl⟩ := h
  simp only [length_append]
  omega

theorem left (h : Stands buf (first ++ second) p) : Stands buf first p := by
  obtain ⟨before, after, rfl, rfl⟩ := h
  exact ⟨before, second ++ after, by rw [append_assoc], rfl⟩

theorem right (h : Stands buf (first ++ second) p) : Stands buf second (p + first.length) := by
  obtain ⟨before, after, rfl, rfl⟩ := h
  exact ⟨before ++ first, after, by simp only [append_assoc], length_append⟩

end Stands

theorem List.slice_append {α : Type u} {buf : List α} {p n : ℕ} (h : p + n ≤ buf.length)
    (after : List α) : (buf ++ after).slice p n = buf.slice p n := by
  rw [slice, slice, drop_append_of_le_length (by omega),
    take_append_of_le_length (by rw [length_drop]; omega)]

theorem List.slice_zero {α : Type u} (buf : List α) (p : ℕ) : buf.slice p 0 = [] := take_zero

theorem List.slice_append_slice {α : Type u} (buf : List α) {p q r : ℕ} (hq : p ≤ q) (hr : q ≤ r) :
    buf.slice p (q - p) ++ buf.slice q (r - q) = buf.slice p (r - p) := by
  obtain ⟨m, rfl⟩ := Nat.exists_eq_add_of_le hq
  obtain ⟨n, rfl⟩ := Nat.exists_eq_add_of_le hr
  rw [Nat.add_sub_cancel_left, Nat.add_sub_cancel_left, Nat.add_assoc, Nat.add_sub_cancel_left]
  exact (by rw [slice, slice, slice, take_add, drop_drop])

theorem List.slice_append_drop {α : Type u} (buf : List α) {p q : ℕ} (hq : p ≤ q) :
    buf.slice p (q - p) ++ buf.drop q = buf.drop p := by
  obtain ⟨m, rfl⟩ := Nat.exists_eq_add_of_le hq
  rw [Nat.add_sub_cancel_left, slice, ← drop_drop, take_append_drop]

/-! ## Numbers -/

namespace BigEndian

/-- The number some bytes stand for. -/
def value (l : List UInt8) : ℕ := l.foldl (fun n b ↦ n * 256 + b.toNat) 0

/-- A number in so many bytes; what does not fit is lost at the front. -/
def bytes : ℕ → ℕ → List UInt8
  | 0, _ => []
  | width + 1, n => bytes width (n / 256) ++ [UInt8.ofNat n]

@[simp] theorem length_bytes (width n : ℕ) : (bytes width n).length = width := by
  induction width generalizing n with
  | zero => rfl
  | succ width ih => rw [bytes, length_append, ih, length_singleton]

variable (l : List UInt8)

theorem value_concat (b : UInt8) : value (l ++ [b]) = value l * 256 + b.toNat := by
  rw [value, foldl_append, foldl_cons, foldl_nil]
  rfl

/-- **A number is read back modulo what its width can hold.** -/
theorem value_bytes_mod (width n : ℕ) : value (bytes width n) = n % 256 ^ width := by
  induction width generalizing n with
  | zero => rw [pow_zero, Nat.mod_one]; rfl
  | succ width ih =>
    rw [bytes, value_concat, ih, UInt8.toNat_ofNat']
    have hmod : n % 256 ^ (width + 1) = n % 256 + 256 * (n / 256 % 256 ^ width) := by
      rw [pow_succ, Nat.mul_comm, Nat.mod_mul]
    omega

theorem value_lt : value l < 256 ^ l.length := by
  induction l using reverseRecOn with
  | nil => exact Nat.one_pos
  | append_singleton l b ih =>
    rw [value_concat, length_append, length_singleton, pow_succ]
    have hb : b.toNat < 256 := b.toNat_lt
    omega

/-- **Bytes are written back as they were read.** -/
theorem bytes_value : bytes l.length (value l) = l := by
  induction l using reverseRecOn with
  | nil => rfl
  | append_singleton l b ih =>
    have hb : b.toNat < 256 := b.toNat_lt
    rw [value_concat, length_append, length_singleton, bytes,
      show (value l * 256 + b.toNat) / 256 = value l by omega, ih]
    congr 2
    exact UInt8.toNat_inj.mp (by rw [UInt8.toNat_ofNat']; omega)

theorem value_bytes {width n : ℕ} (h : n < 256 ^ width) : value (bytes width n) = n := by
  rw [value_bytes_mod, Nat.mod_eq_of_lt h]

/-- The number that the two's complement of so many bits stands for. -/
def signed (bits n : ℕ) : ℤ := if 2 ^ (bits - 1) ≤ n then (n : ℤ) - 2 ^ bits else n

end BigEndian
