import Uboot.Cli.ReadLine
import Uboot.Lib.LineEditor

/-!
# The editor as a line with a cursor

What `cread_line` is for, in terms of a text with a cursor and of the lines entered before. A sequence that is none of the
arrow and home keys is text, with the key that shows it.
-/

namespace Uboot.Cli

open Lib

structure Editor where
  cursor : Cursor UInt8
  inserting : Bool
  /-- An escape sequence that has begun. -/
  pending : List UInt8
  past : Recall (List UInt8)

namespace Editor

def type (cap : Nat) (bs : List UInt8) (e : Editor) : Editor :=
  { e with cursor := bs.foldl (fun c a => c.type cap e.inserting a) e.cursor }

/-- A recalled line takes the place of the text. -/
def showLine (r : Option (List UInt8 × Recall (List UInt8))) (e : Editor) : Editor :=
  match r with
  | none => e
  | some (line, past) => { e with cursor := .ofText line, past := past }

/-- A line is entered. An empty one and one that starts with `!` are not kept. -/
def accept (e : Editor) : Editor :=
  let line := cstr e.cursor.text
  { e with
    past := if line ≠ [] ∧ line.head? ≠ some 33 then e.past.remember (histMaxLines - 1) line else e.past.rewind }

/-- The text is edited on, entered, or given up. -/
inductive Outcome where
  | more (e : Editor)
  | entered (e : Editor)
  | interrupted (e : Editor)

def press (cap : Nat) (k : UInt8) (e : Editor) : Outcome :=
  let move (c : Cursor UInt8) : Outcome := .more { e with cursor := c }
  match Key.of k with
  | .esc => .more { e with pending := [k] }
  | .home => move e.cursor.home
  | .interrupt => .interrupted e
  | .forward => move e.cursor.right
  | .backward => move e.cursor.left
  | .delete => move e.cursor.deleteRight
  | .kill => move e.cursor.killToEnd
  | .toEnd => move e.cursor.toEnd
  | .toggle => .more { e with inserting := !e.inserting }
  | .clear => move .clear
  | .backspace => move e.cursor.deleteLeft
  | .prev => .more (e.showLine e.past.prev)
  | .next => .more (e.showLine (e.past.next []))
  | .tab => .more e
  | .char => .more (e.type cap [k])

/-- Enter, and the keys behind an escape. `lossy` is whether the key that cuts off an escape is lost; an editor keeps it. -/
def stroke (lossy : Bool) (cap : Nat) (k : UInt8) (e : Editor) : Outcome :=
  if k = 10 ∨ k = 13 then .entered e.accept
  else
    match e.pending with
    | [] => e.press cap k
    | [esc] =>
      if k = 91 then .more { e with pending := [esc, k] }
      else .more (type cap (if lossy then [esc] else [esc, k]) { e with pending := [] })
    | seq =>
      match arrow k with
      | some c => press cap c { e with pending := [] }
      | none => .more (type cap (seq ++ [k]) { e with pending := [] })

/-- A text to be edited, with the cursor at its end. -/
def start (text : List UInt8) (past : Recall (List UInt8)) : Editor := ⟨.ofText text, true, [], past⟩

end Editor

/-- The texts that were entered; none where one was given up. -/
structure Desk where
  editor : Editor
  calls : Nat
  lines : List (Option (List UInt8))

section
variable {cap : Nat} (lossy : Bool) (bufs : Nat → Buf cap)

def deskStart : Desk := ⟨.start (bufs 0).text .empty, 0, []⟩

def deskKey (k : UInt8) (d : Desk) : Desk :=
  match d.editor.stroke lossy cap k with
  | .more e => { d with editor := e }
  | .entered e => ⟨.start (bufs (d.calls + 1)).text e.past, d.calls + 1, d.lines ++ [some e.cursor.text]⟩
  | .interrupted e => ⟨.start (bufs (d.calls + 1)).text e.past, d.calls + 1, d.lines ++ [none]⟩

def deskKeys (ks : List UInt8) (d : Desk) : Desk := ks.foldl (fun d k => deskKey lossy bufs k d) d

end

end Uboot.Cli
