import Mathlib.Data.List.Basic
import Mathlib.Logic.Function.Basic
import Mathlib.Order.Lattice
set_option autoImplicit false

/-!
# Files and their names

A directory maps names to files, and a file that is open stays the file it is when its name
goes to another.  Opening a name for writing empties the file it has; renaming moves the
file, not its content.  A descriptor writes at a place of its own, so two of them on one file
write over each other.
-/

namespace Repercep.Foundation

/-- Files by their number, and the names of a directory.  No name has a file that has not
been made. -/
structure Files (N α : Type) where
  content : Nat → List α
  entry : N → Option Nat
  next : Nat
  named : ∀ n i, entry n = some i → i < next

namespace Files

variable {N α : Type}

/-- What can be read under a name. -/
def text (f : Files N α) (n : N) : Option (List α) := (f.entry n).map f.content

/-- At most `count` items of a file from a place on. -/
def chunk (f : Files N α) (i pos count : Nat) : List α := ((f.content i).drop pos).take count

/-- The file that opening a name for writing gives: the one it has, or a new one. -/
def target (f : Files N α) (n : N) : Nat := (f.entry n).getD f.next

/-- A list written over at a place, with `pad` up to that place where it is shorter. -/
def overwrite (pad : α) (pos : Nat) (new old : List α) : List α :=
  old.take pos ++ List.replicate (pos - old.length) pad ++ new ++ old.drop (pos + new.length)

/-- Writing into an open file. -/
def writeAt (pad : α) (f : Files N α) (i pos : Nat) (new : List α) : Files N α :=
  { f with content := Function.update f.content i (overwrite pad pos new (f.content i)) }

section Names

variable [DecidableEq N]

theorem named_openWrite (f : Files N α) (n m : N) (i : Nat)
    (h : Function.update f.entry n (some (f.target n)) m = some i) :
    i < max f.next (f.target n + 1) := by
  rw [Function.update_apply] at h
  split at h
  · cases h
    exact Nat.lt_of_lt_of_le (Nat.lt_succ_self _) (le_max_right _ _)
  · exact Nat.lt_of_lt_of_le (f.named m i h) (le_max_left _ _)

/-- Opening a name for writing: its file is there, and empty. -/
def openWrite (f : Files N α) (n : N) : Files N α where
  content := Function.update f.content (f.target n) []
  entry := Function.update f.entry n (some (f.target n))
  next := max f.next (f.target n + 1)
  named := f.named_openWrite n

/-- The directory after a renaming.  Two names of one file stay as they are. -/
def renamed (f : Files N α) (src dst : N) : N → Option Nat :=
  if f.entry src = f.entry dst then f.entry
  else Function.update (Function.update f.entry dst (f.entry src)) src none

theorem named_renamed (f : Files N α) (src dst m : N) (i : Nat)
    (h : f.renamed src dst m = some i) : i < f.next := by
  unfold renamed at h
  split at h
  · exact f.named m i h
  · rw [Function.update_apply] at h
    split at h
    · cases h
    · rw [Function.update_apply] at h
      split at h
      · exact f.named src i h
      · exact f.named m i h

/-- Renaming over whatever `dst` names; `none` when `src` names nothing. -/
def rename (f : Files N α) (src dst : N) : Option (Files N α) :=
  match f.entry src with
  | none => none
  | some _ =>
      some { content := f.content, entry := f.renamed src dst, next := f.next,
             named := f.named_renamed src dst }

end Names

/-! ## Opening -/

section Opening

variable {f : Files N α} {n m : N} {i : Nat}

/-- A file that is there and that the name does not have is not the one opened. -/
theorem ne_target (hlt : i < f.next) (hentry : f.entry n ≠ some i) : i ≠ f.target n := by
  unfold target
  cases hn : f.entry n with
  | none => exact Nat.ne_of_lt hlt
  | some j =>
      rintro rfl
      exact hentry hn

theorem target_eq (hentry : f.entry n = some i) : f.target n = i := by
  rw [target, hentry, Option.getD_some]

variable [DecidableEq N]

@[simp] theorem openWrite_entry_self :
    (f.openWrite n).entry n = some (f.target n) := Function.update_self _ _ _

theorem openWrite_entry_of_ne (h : m ≠ n) : (f.openWrite n).entry m = f.entry m :=
  Function.update_of_ne h _ _

@[simp] theorem openWrite_content_target : (f.openWrite n).content (f.target n) = [] :=
  Function.update_self _ _ _

theorem openWrite_content_of_ne (h : i ≠ f.target n) :
    (f.openWrite n).content i = f.content i := Function.update_of_ne h _ _

theorem next_le_openWrite : f.next ≤ (f.openWrite n).next := le_max_left _ _

end Opening

/-! ## Writing -/

section Writing

variable {f : Files N α} {pad : α} {i j pos : Nat} {new : List α}

/-- At its end a list is written on. -/
theorem overwrite_length (old : List α) : overwrite pad old.length new old = old ++ new := by
  simp [overwrite]

theorem writeAt_content_self :
    (writeAt pad f i pos new).content i = overwrite pad pos new (f.content i) :=
  Function.update_self _ _ _

theorem writeAt_content_of_ne (h : j ≠ i) :
    (writeAt pad f i pos new).content j = f.content j := Function.update_of_ne h _ _

/-- A chunk takes what was read so far further. -/
theorem take_append_chunk (count : Nat) :
    (f.content i).take pos ++ f.chunk i pos count =
      (f.content i).take (pos + (f.chunk i pos count).length) := by
  rw [List.take_add, chunk, List.length_take, ← List.take_eq_take_min]

/-- A chunk as long as the file is all that is left. -/
theorem chunk_length : f.chunk i pos ((f.content i).length + 1) = (f.content i).drop pos := by
  refine List.take_of_length_le ?_
  rw [List.length_drop]
  omega

theorem chunk_end (count : Nat) : f.chunk i (pos + ((f.content i).drop pos).length) count = [] := by
  have hend : (f.content i).drop (pos + ((f.content i).drop pos).length) = [] := by
    rw [List.drop_eq_nil_iff, List.length_drop]
    omega
  rw [chunk, hend, List.take_nil]

/-- Where nothing is left to read the file has been read. -/
theorem take_of_chunk_eq_nil {count : Nat} (h : f.chunk i pos (count + 1) = []) :
    (f.content i).take pos = f.content i := by
  rw [chunk, List.take_eq_nil_iff] at h
  exact List.take_of_length_le (List.drop_eq_nil_iff.mp (h.resolve_left (Nat.succ_ne_zero count)))

end Writing

/-! ## Renaming -/

section Renaming

variable [DecidableEq N] {f g : Files N α} {src dst : N} {i : Nat}

/-- A name that has a file can be renamed. -/
theorem rename_isSome (hsrc : f.entry src = some i) : ∃ g, f.rename src dst = some g := by
  rw [rename, hsrc]
  exact ⟨_, rfl⟩

/-- What a renaming does when two names have different files. -/
theorem rename_eq_some (hsrc : f.entry src = some i) (hdst : f.entry dst ≠ some i)
    (h : f.rename src dst = some g) :
    g.content = f.content ∧ g.next = f.next ∧ g.entry src = none ∧
      (dst ≠ src → g.entry dst = some i) := by
  rw [rename, hsrc] at h
  cases h
  have hne : ¬ f.entry src = f.entry dst := fun heq => hdst (heq.symm.trans hsrc)
  refine ⟨rfl, rfl, ?_, fun hnames => ?_⟩
  · show f.renamed src dst src = none
    rw [renamed, if_neg hne, Function.update_self]
  · show f.renamed src dst dst = some i
    rw [renamed, if_neg hne, Function.update_of_ne hnames, Function.update_self, hsrc]

end Renaming

end Files

end Repercep.Foundation
