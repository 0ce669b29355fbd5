import Mathlib.Logic.Function.Basic
import Mathlib.Data.List.Basic

/-!
# A bitmap allocator over a finite range

An allocator hands out the values of a fixed range: `allocate a` reserves a given value,
`allocateNext` some free one, `release a` gives one back.  Its state is the range, in the
order of its offsets, and the bitmap of reserved values.

The allocator of the real system picks the free offset of `allocateNext` at random; here
it takes the first one, which is one of the choices it may make.

What a caller of such an allocator needs for atomicity is that releasing what was just
reserved gives back the state before (`release_allocate`, `release_allocateNext`), and
that reserving and releasing one value leave every other value alone.
-/

namespace Kubernetes
namespace Alloc

/-- Why an allocation fails. -/
inductive Failure
  | notInRange
  | allocated
  | full
  deriving DecidableEq, Repr

/-- A range of values and the bitmap of those reserved. -/
structure Bitmap (α : Type) where
  range : List α
  used : α → Bool

namespace Bitmap

variable {α : Type} [DecidableEq α]

/-- Whether `a` is in the range and reserved. -/
def has (b : Bitmap α) (a : α) : Bool :=
  decide (a ∈ b.range) && b.used a

/-- The bitmap with `a` marked `v`. -/
def mark (b : Bitmap α) (a : α) (v : Bool) : Bitmap α :=
  { b with used := Function.update b.used a v }
attribute [grind] mark

/-- Reserve `a`. -/
def allocate (b : Bitmap α) (a : α) : Except Failure (Bitmap α) :=
  if a ∉ b.range then .error .notInRange
  else if b.used a then .error .allocated
  else .ok (b.mark a true)
attribute [grind] allocate

/-- Reserve the first free value of the range. -/
def allocateNext (b : Bitmap α) : Except Failure (α × Bitmap α) :=
  match b.range.find? fun a => !b.used a with
  | some a => .ok (a, b.mark a true)
  | none => .error .full
attribute [grind] allocateNext

/-- Give `a` back; a value outside the range is ignored. -/
def release (b : Bitmap α) (a : α) : Bitmap α :=
  if a ∈ b.range then b.mark a false else b
attribute [grind] release

variable {b b' : Bitmap α} {a c : α}

@[simp] theorem range_mark (b : Bitmap α) (a : α) (v : Bool) : (b.mark a v).range = b.range := rfl

/-- Marking a value back to what it was gives the bitmap back. -/
theorem mark_mark_self (b : Bitmap α) (a : α) (v : Bool) : (b.mark a v).mark a (b.used a) = b := by
  cases b
  simp [mark]

/-- What a successful `allocate` does: `a` was in the range and free, and is now
reserved. -/
theorem allocate_eq_ok (h : b.allocate a = .ok b') :
    a ∈ b.range ∧ b.used a = false ∧ b' = b.mark a true := by
  unfold allocate at h
  split_ifs at h with hr hu
  cases h
  exact ⟨hr, by simpa using hu, rfl⟩

/-- What a successful `allocateNext` does: the value was in the range and free, and is
now reserved. -/
theorem allocateNext_eq_ok (h : b.allocateNext = .ok (a, b')) :
    a ∈ b.range ∧ b.used a = false ∧ b' = b.mark a true := by
  unfold allocateNext at h
  split at h
  · rename_i c hc
    cases h
    have hmem := List.mem_of_find?_eq_some hc
    have hfree := List.find?_some hc
    exact ⟨hmem, by simpa using hfree, rfl⟩
  · cases h

/-- Releasing a value of the range that was free before its reservation gives the
bitmap back. -/
theorem release_mark (hr : a ∈ b.range) (hu : b.used a = false) : (b.mark a true).release a = b := by
  unfold release
  rw [if_pos (by simpa using hr), ← hu]
  exact mark_mark_self b a _

theorem release_allocate (h : b.allocate a = .ok b') : b'.release a = b := by
  obtain ⟨hr, hu, rfl⟩ := allocate_eq_ok h
  exact release_mark hr hu

theorem release_allocateNext (h : b.allocateNext = .ok (a, b')) : b'.release a = b := by
  obtain ⟨hr, hu, rfl⟩ := allocateNext_eq_ok h
  exact release_mark hr hu

end Bitmap

end Alloc
end Kubernetes
