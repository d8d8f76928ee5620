import Mathlib

/-! # A line editor

What a line editor does, apart from how it is stored: the text before and behind the cursor,
the lines entered so far and the place among them which was recalled last. Behind the last
entry there is the empty line.
-/

universe u

namespace EditLine

variable {α : Type u}

/-- A line with its cursor. -/
structure Zipper (α : Type u) where
  before : List α := []
  after : List α := []

namespace Zipper

def contents (z : Zipper α) : List α := z.before ++ z.after

def cursor (z : Zipper α) : Nat := z.before.length

def insert (z : Zipper α) (t : List α) : Zipper α := { z with before := z.before ++ t }

def append (z : Zipper α) (t : List α) : Zipper α := { z with after := z.after ++ t }

def left (z : Zipper α) : Zipper α :=
  match z.before.getLast? with
  | none => z
  | some c => ⟨z.before.dropLast, c :: z.after⟩

def right (z : Zipper α) : Zipper α :=
  match z.after with
  | [] => z
  | c :: rest => ⟨z.before ++ [c], rest⟩

def home (z : Zipper α) : Zipper α := ⟨[], z.contents⟩

def toEnd (z : Zipper α) : Zipper α := ⟨z.contents, []⟩

def backspace (z : Zipper α) : Zipper α := { z with before := z.before.dropLast }

def delete (z : Zipper α) : Zipper α := { z with after := z.after.tail }

/-- To the right, or to the left if it is negative. -/
def move (z : Zipper α) (delta : Int) : Zipper α :=
  if 0 < delta then right^[delta.natAbs] z else left^[delta.natAbs] z

/-- A text with the cursor behind it. -/
def ofText (t : List α) : Zipper α := { before := t }

@[ext] theorem ext {z z' : Zipper α} (contents : z.contents = z'.contents)
    (cursor : z.cursor = z'.cursor) : z = z' := by
  obtain ⟨before, after⟩ := z
  obtain ⟨before', after'⟩ := z'
  obtain ⟨rfl, rfl⟩ := List.append_inj contents cursor
  rfl

theorem cursor_le (z : Zipper α) : z.cursor ≤ z.contents.length := by
  simp [cursor, contents]

@[simp] theorem take_contents (z : Zipper α) : z.contents.take z.cursor = z.before :=
  List.take_left

@[simp] theorem drop_contents (z : Zipper α) : z.contents.drop z.cursor = z.after :=
  List.drop_left

/-! ## What the keys do to the text and to the cursor -/

theorem contents_insert (z : Zipper α) (t : List α) :
    (z.insert t).contents = z.contents.take z.cursor ++ t ++ z.contents.drop z.cursor := by
  rw [take_contents, drop_contents]
  rfl

@[simp] theorem cursor_insert (z : Zipper α) (t : List α) :
    (z.insert t).cursor = z.cursor + t.length := List.length_append

@[simp] theorem contents_left (z : Zipper α) : z.left.contents = z.contents := by
  rcases List.eq_nil_or_concat z.before with empty | ⟨front, c, whole⟩
  · simp [left, empty]
  · simp [left, contents, whole]

@[simp] theorem cursor_left (z : Zipper α) : z.left.cursor = z.cursor - 1 := by
  rcases List.eq_nil_or_concat z.before with empty | ⟨front, c, whole⟩
  · simp [left, cursor, empty]
  · simp [left, cursor, whole]

@[simp] theorem contents_right (z : Zipper α) : z.right.contents = z.contents := by
  cases after : z.after with
  | nil => simp [right, after]
  | cons c rest => simp [right, contents, after]

theorem cursor_right (z : Zipper α) :
    z.right.cursor = min (z.cursor + 1) z.contents.length := by
  cases after : z.after with
  | nil => simp [right, cursor, contents, after]
  | cons c rest =>
      simp only [right, cursor, contents, after, List.length_append, List.length_cons,
        List.length_nil]
      omega

@[simp] theorem contents_home (z : Zipper α) : z.home.contents = z.contents := rfl

@[simp] theorem cursor_home (z : Zipper α) : z.home.cursor = 0 := rfl

@[simp] theorem contents_toEnd (z : Zipper α) : z.toEnd.contents = z.contents := List.append_nil _

@[simp] theorem cursor_toEnd (z : Zipper α) : z.toEnd.cursor = z.contents.length := rfl

theorem contents_backspace (z : Zipper α) (inside : 0 < z.cursor) :
    z.backspace.contents = z.contents.eraseIdx (z.cursor - 1) := by
  rcases List.eq_nil_or_concat z.before with empty | ⟨front, c, whole⟩
  · simp [cursor, empty] at inside
  · simp [backspace, contents, cursor, whole, List.eraseIdx_append_of_length_le]

@[simp] theorem cursor_backspace (z : Zipper α) : z.backspace.cursor = z.cursor - 1 :=
  List.length_dropLast

theorem contents_delete (z : Zipper α) : z.delete.contents = z.contents.eraseIdx z.cursor := by
  cases after : z.after with
  | nil => simp [delete, contents, cursor, after, List.eraseIdx_of_length_le]
  | cons c rest => simp [delete, contents, cursor, after, List.eraseIdx_append_of_length_le]

@[simp] theorem cursor_delete (z : Zipper α) : z.delete.cursor = z.cursor := rfl

/-! The keys which delete take away one character of the line. -/

theorem backspace_subset (z : Zipper α) : z.backspace.contents ⊆ z.contents :=
  ((List.dropLast_sublist z.before).append_right z.after).subset

theorem delete_subset (z : Zipper α) : z.delete.contents ⊆ z.contents :=
  ((List.tail_sublist z.after).append_left z.before).subset

theorem length_backspace (z : Zipper α) (inside : 0 < z.cursor) :
    z.backspace.contents.length + 1 = z.contents.length := by
  have bound := z.cursor_le
  rw [contents_backspace z inside, List.length_eraseIdx_of_lt (by omega)]
  omega

theorem length_delete (z : Zipper α) (inside : z.cursor < z.contents.length) :
    z.delete.contents.length + 1 = z.contents.length := by
  rw [contents_delete, List.length_eraseIdx_of_lt inside]
  omega

@[simp] theorem contents_append (z : Zipper α) (t : List α) :
    (z.append t).contents = z.contents ++ t := (List.append_assoc _ _ _).symm

@[simp] theorem cursor_append (z : Zipper α) (t : List α) : (z.append t).cursor = z.cursor := rfl

@[simp] theorem contents_ofText (t : List α) : (ofText t).contents = t := List.append_nil t

@[simp] theorem cursor_ofText (t : List α) : (ofText t).cursor = t.length := rfl

end Zipper

/-- A line, the lines which were entered before it, and the place among them. -/
structure Editor (α : Type u) where
  line : Zipper α := {}
  entries : List (List α) := []
  position : Nat := 0
  /-- The place behind the last entry is the last one. -/
  inside : position ≤ entries.length := by simp

namespace Editor

/-- The line changes and nothing else. -/
def edit (e : Editor α) (f : Zipper α → Zipper α) : Editor α := { e with line := f e.line }

/-- The entry before the place, if there is one. -/
def older (e : Editor α) : Editor α :=
  if e.position = 0 then e
  else
    { e with
      line := .ofText (e.entries.getD (e.position - 1) [])
      position := e.position - 1
      inside := (Nat.sub_le _ _).trans e.inside }

/-- The entry behind the place, or the empty line behind the last one. -/
def newer (e : Editor α) : Editor α :=
  if there : e.position < e.entries.length then
    { e with
      line := .ofText (e.entries.getD (e.position + 1) [])
      position := e.position + 1
      inside := there }
  else e

/-- A line which is not empty becomes the last entry. -/
def submit (e : Editor α) : Editor α :=
  if e.line.contents = [] then e
  else
    { line := {}
      entries := e.entries ++ [e.line.contents]
      position := (e.entries ++ [e.line.contents]).length
      inside := le_rfl }

theorem older_of_first {e : Editor α} (first : e.position = 0) : e.older = e := if_pos first

theorem older_of_entry {e : Editor α} {i : Nat} {entry : List α} (place : e.position = i + 1)
    (found : e.entries[i]? = some entry) :
    e.older.line = .ofText entry ∧ e.older.entries = e.entries ∧ e.older.position = i := by
  rw [older, if_neg (by omega)]
  refine ⟨?_, rfl, by simp [place]⟩
  simp [place, found]

theorem newer_of_last {e : Editor α} (last : e.position = e.entries.length) : e.newer = e :=
  dif_neg (by omega)

theorem newer_of_entry {e : Editor α} {entry : List α}
    (found : e.entries[e.position + 1]? = some entry) :
    e.newer.line = .ofText entry ∧ e.newer.entries = e.entries ∧
      e.newer.position = e.position + 1 := by
  have inside : e.position + 1 < e.entries.length := (List.getElem?_eq_some_iff.mp found).1
  rw [newer, dif_pos (by omega)]
  refine ⟨?_, rfl, rfl⟩
  simp [found]

/-- Behind the last entry there is an empty line. -/
theorem newer_to_last {e : Editor α} (last : e.position + 1 = e.entries.length) :
    e.newer.line = {} ∧ e.newer.entries = e.entries ∧ e.newer.position = e.position + 1 := by
  rw [newer, dif_pos (by omega)]
  refine ⟨?_, rfl, rfl⟩
  simp [last, Zipper.ofText]

end Editor

end EditLine
