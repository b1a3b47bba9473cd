import Mathlib.Data.List.Basic

set_option autoImplicit false

/- A growable byte array that is also written behind its back, through a pointer
into its storage. Resizing moves the end of the array; what it adds is zero. -/

structure RawVector where
  storage : List UInt8
  size : Nat

namespace RawVector

def zeros (size : Nat) : RawVector := { storage := List.replicate size 0, size }

/-- Shrinking keeps the storage; growing clears what it takes in. -/
def resize (v : RawVector) (size : Nat) : RawVector where
  storage := v.storage.take v.size ++ List.replicate (size - v.size) 0 ++
    v.storage.drop (max v.size size)
  size := size

/-- A write through `data() + offset`, wherever the array ends. -/
def write (v : RawVector) (offset : Nat) (bytes : List UInt8) : RawVector :=
  { v with storage := v.storage.take offset ++ bytes ++ v.storage.drop (offset + bytes.length) }

def contents (v : RawVector) : List UInt8 := v.storage.take v.size

theorem resize_shrink {v : RawVector} {size : Nat} (smaller : size ≤ v.size) :
    v.resize size = { v with size } := by
  have none_added : size - v.size = 0 := by omega
  simp only [resize, none_added, List.replicate_zero, List.append_nil, Nat.max_eq_left smaller,
    List.take_append_drop]

theorem length_write {v : RawVector} {offset : Nat} {bytes : List UInt8}
    (inside : offset + bytes.length ≤ v.storage.length) :
    (v.write offset bytes).storage.length = v.storage.length := by
  simp only [write, List.length_append, List.length_take, List.length_drop]
  omega

/-- A write right behind a prefix extends the prefix. -/
theorem take_write {v : RawVector} {front bytes : List UInt8}
    (written : v.storage.take front.length = front) :
    (v.write front.length bytes).storage.take (front ++ bytes).length = front ++ bytes := by
  simp only [write, written]
  rw [List.take_left]

/-- Resizing to a written prefix returns it, but clears what lies past the old end. -/
theorem contents_resize {v : RawVector} {front : List UInt8}
    (written : v.storage.take front.length = front) :
    (v.resize front.length).contents =
      front.take v.size ++ List.replicate (front.length - v.size) 0 := by
  have fits : front.length ≤ v.storage.length := by
    have short := congrArg List.length written
    rw [List.length_take] at short
    omega
  by_cases smaller : front.length ≤ v.size
  · have none_added : front.length - v.size = 0 := by omega
    rw [resize_shrink smaller, contents, none_added, List.replicate_zero, List.append_nil,
      List.take_of_length_le smaller]
    exact written
  · have kept : (v.storage.take v.size) = front.take v.size := by
      rw [← written, List.take_take, Nat.min_eq_left (by omega)]
    have length_eq : front.length =
        (front.take v.size ++ List.replicate (front.length - v.size) 0).length := by
      rw [List.length_append, List.length_take, List.length_replicate]
      omega
    simp only [resize, contents, kept]
    nth_rewrite 1 [length_eq]
    rw [List.take_left]

end RawVector
