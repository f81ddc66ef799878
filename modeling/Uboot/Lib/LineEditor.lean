import Mathlib.Data.List.TakeDrop

/-!
# A line with a cursor

A text with a place in it, and lines that are kept to be called up again.
-/

namespace Uboot.Lib

/-- What stands before the cursor, the nearest first, and what stands behind it. -/
structure Cursor (α : Type*) where
  before : List α
  after : List α

namespace Cursor

variable {α : Type*}

def text (c : Cursor α) : List α := c.before.reverse ++ c.after

def ofText (xs : List α) : Cursor α := ⟨xs.reverse, []⟩

def insert (a : α) (c : Cursor α) : Cursor α := ⟨a :: c.before, c.after⟩

/-- At the end of the line there is nothing to write over. -/
def overwrite (a : α) (c : Cursor α) : Cursor α := ⟨a :: c.before, c.after.tail⟩

/-- A character is typed, in a line of at most `cap`. -/
def type (cap : Nat) (inserting : Bool) (a : α) (c : Cursor α) : Cursor α :=
  if (inserting = true ∨ c.after.length = 0) ∧ cap ≤ c.text.length then c
  else if inserting then c.insert a
  else c.overwrite a

def left : Cursor α → Cursor α
  | ⟨[], after⟩ => ⟨[], after⟩
  | ⟨a :: before, after⟩ => ⟨before, a :: after⟩

def right : Cursor α → Cursor α
  | ⟨before, []⟩ => ⟨before, []⟩
  | ⟨before, a :: after⟩ => ⟨a :: before, after⟩

def home (c : Cursor α) : Cursor α := ⟨[], c.text⟩

def toEnd (c : Cursor α) : Cursor α := ofText c.text

def deleteLeft (c : Cursor α) : Cursor α := ⟨c.before.tail, c.after⟩

def deleteRight (c : Cursor α) : Cursor α := ⟨c.before, c.after.tail⟩

def killToEnd (c : Cursor α) : Cursor α := ⟨c.before, []⟩

def clear : Cursor α := ⟨[], []⟩

variable {a : α} {c : Cursor α} {xs : List α}

@[simp] theorem text_ofText : (ofText xs).text = xs := by simp [ofText, text]

@[simp] theorem text_home : c.home.text = c.text := rfl

@[simp] theorem text_toEnd : c.toEnd.text = c.text := text_ofText

@[simp] theorem text_left : c.left.text = c.text := by
  obtain ⟨before, after⟩ := c
  cases before with
  | nil => rfl
  | cons a before => simp [left, text]

@[simp] theorem text_right : c.right.text = c.text := by
  obtain ⟨before, after⟩ := c
  cases after with
  | nil => rfl
  | cons a after => simp [right, text]

theorem length_text : c.text.length = c.before.length + c.after.length := by simp [text]

end Cursor

/-- Lines that were entered, the last first, and how far back a recall has gone. -/
structure Recall (β : Type*) where
  lines : List β
  back : Nat
  back_le : back ≤ lines.length

namespace Recall

variable {β : Type*}

def empty : Recall β := ⟨[], 0, Nat.le_refl 0⟩

/-- One line further back -/
def prev (r : Recall β) : Option (β × Recall β) :=
  if h : r.back < r.lines.length then some (r.lines.get ⟨r.back, h⟩, ⟨r.lines, r.back + 1, h⟩) else none

/-- One line forward; in front of the last line there is a new one. -/
def next (fresh : β) (r : Recall β) : Option (β × Recall β) :=
  match h : r.back with
  | 0 => none
  | 1 => some (fresh, ⟨r.lines, 0, Nat.zero_le _⟩)
  | n + 2 =>
    some (r.lines.get ⟨n, by have := r.back_le; omega⟩, ⟨r.lines, n + 1, by have := r.back_le; omega⟩)

/-- A line is done; the last `depth` lines are kept. -/
def remember (depth : Nat) (l : β) (r : Recall β) : Recall β := ⟨(l :: r.lines).take depth, 0, Nat.zero_le _⟩

/-- A line is done that is not kept. -/
def rewind (r : Recall β) : Recall β := ⟨r.lines, 0, Nat.zero_le _⟩

end Recall

end Uboot.Lib
