import Mathlib.Data.List.GetD
import Mathlib.Data.List.TakeWhile
import Uboot.Cli.Editor

/-!
# The buffer holds the line

Each edit of the buffer by the counters `num` and `eol_num` is an edit at a cursor, and writes to the buffer only.
-/

namespace Uboot.Cli

open Lib

/-- The buffer starts with the text, and the counters are where the cursor and the end are. -/
structure Holds (cap : Nat) (l : Line) (c : Cursor UInt8) : Prop where
  text : ∃ rest, l.buf = c.before.reverse ++ c.after ++ rest
  num : l.num = c.before.length
  eolNum : l.eolNum = c.before.length + c.after.length
  fits : l.eolNum ≤ cap
  room : l.buf.length = cap + 1

variable {cap : Nat} {l : Line} {c : Cursor UInt8} {p q r : List UInt8} {x a : UInt8}

theorem ulongSub_of_le {a b : Nat} (h : b ≤ a) (ha : a < 2 ^ 32) : ulongSub a b = a - b := by
  rw [ulongSub]
  omega

/-! ## Memory -/

theorem store_append (p : List UInt8) (x a : UInt8) (r : List UInt8) :
    store (p ++ x :: r) p.length a = some (p ++ a :: r) := by
  rw [store, if_pos (by simp)]
  simp

/-- A character is made room for, and stored. -/
theorem insert_bytes (p q : List UInt8) (x : UInt8) (r : List UInt8) (a : UInt8) :
    (memmove (p ++ q ++ x :: r) (p.length + 1) p.length q.length).bind (store · p.length a) = some (p ++ a :: q ++ r) := by
  obtain ⟨y, t, ht⟩ : ∃ y t, q ++ x :: r = y :: t := by cases q <;> simp
  have htake : (p ++ q ++ x :: r).take (p.length + 1) = p ++ [y] := by
    rw [show p ++ q ++ x :: r = (p ++ [y]) ++ t by rw [List.append_assoc, ht]; simp, List.take_left' (by simp)]
  have hdrop : (p ++ q ++ x :: r).drop (p.length + 1 + q.length) = r := by
    rw [show p ++ q ++ x :: r = (p ++ q ++ [x]) ++ r by simp, List.drop_left']
    simp
    omega
  have hmid : ((p ++ q ++ x :: r).drop p.length).take q.length = q := by simp
  rw [memmove, if_pos (by simp; omega), htake, hdrop, hmid, Option.bind_some]
  simp only [List.append_assoc, List.singleton_append]
  exact store_append p y a (q ++ r)

theorem delete_bytes (p : List UInt8) (x : UInt8) (q r : List UInt8) :
    ∃ r', memmove (p ++ x :: q ++ r) p.length (p.length + 1) q.length = some (p ++ q ++ r') ∧ r'.length = r.length + 1 := by
  refine ⟨(p ++ x :: q ++ r).drop (p.length + q.length), ?_, by simp; omega⟩
  have hmid : ((p ++ x :: q ++ r).drop (p.length + 1)).take q.length = q := by
    rw [show p ++ x :: q ++ r = (p ++ [x]) ++ (q ++ r) by simp, List.drop_left' (by simp), List.take_left]
  rw [memmove, if_pos (by simp; omega), hmid]
  simp

/-! ## Typing -/

theorem Holds.put (h : Holds cap l c) (bs : List UInt8) : Holds cap (l.put bs) c := ⟨h.text, h.num, h.eolNum, h.fits, h.room⟩

/-- A line with room for a character has a byte behind its text, and one for the NUL behind that. -/
theorem Holds.behind (h : Holds cap l c) : ∃ x rest, l.buf = c.before.reverse ++ c.after ++ x :: rest := by
  obtain ⟨rest, htext⟩ := h.text
  have hroom := h.room
  have hfits := h.fits
  have heol := h.eolNum
  cases rest with
  | nil =>
      rw [htext] at hroom
      simp at hroom
      omega
  | cons x rest => exact ⟨x, rest, htext⟩

theorem Holds.num_eq (h : Holds cap l c) : l.num = c.before.reverse.length := by rw [h.num, List.length_reverse]

/-- Nothing is moved where the cursor is at the end. -/
theorem Holds.insert_store (h : Holds cap l c) (a : UInt8) :
    ∃ rest, ((if 1 < c.after.length + 1 then memmove l.buf (l.num + 1) l.num c.after.length else some l.buf).bind
      (store · l.num a)) = some (c.before.reverse ++ a :: c.after ++ rest) ∧
        (c.before.reverse ++ a :: c.after ++ rest).length = cap + 1 := by
  obtain ⟨x, rest, htext⟩ := h.behind
  refine ⟨rest, ?_, ?_⟩
  · rw [htext, h.num_eq]
    split
    · exact insert_bytes ..
    · have hnil : c.after = [] := List.eq_nil_of_length_eq_zero (by omega)
      rw [hnil, List.append_nil]
      simpa using store_append c.before.reverse x a rest
  · rw [← h.room, htext]
    simp
    omega

theorem Holds.inserted (h : Holds cap l c) (hlt : l.eolNum < cap) {rest : List UInt8}
    (hroom : (c.before.reverse ++ a :: c.after ++ rest).length = cap + 1) (out : List UInt8) :
    Holds cap ⟨c.before.reverse ++ a :: c.after ++ rest, l.num + 1, l.eolNum + 1, out⟩ (c.insert a) := by
  have hnum := h.num
  have heol := h.eolNum
  refine ⟨⟨rest, by simp [Cursor.insert]⟩, ?_, ?_, hlt, hroom⟩
  · simp [Cursor.insert, hnum]
  · simp [Cursor.insert, heol]
    omega

/-- The character under the cursor is replaced, or one is added behind the text. -/
theorem Holds.overwrite_store (h : Holds cap l c) (a : UInt8) :
    ∃ rest, store l.buf l.num a = some (c.before.reverse ++ a :: c.after.tail ++ rest) ∧
      (c.before.reverse ++ a :: c.after.tail ++ rest).length = cap + 1 := by
  obtain ⟨x, rest, htext⟩ := h.behind
  have hroom := h.room
  cases hafter : c.after with
  | nil =>
      rw [hafter, List.append_nil] at htext
      rw [htext] at hroom ⊢
      refine ⟨rest, ?_, ?_⟩
      · rw [h.num_eq, store_append]
        simp
      · rw [← hroom]
        simp
  | cons y q =>
      rw [hafter, List.append_assoc, List.cons_append] at htext
      rw [htext] at hroom ⊢
      refine ⟨x :: rest, ?_, ?_⟩
      · rw [h.num_eq, store_append]
        simp
      · rw [← hroom]
        simp

theorem Holds.overwritten (h : Holds cap l c) (hlt : c.after.length = 0 → l.eolNum < cap) {rest : List UInt8}
    (hroom : (c.before.reverse ++ a :: c.after.tail ++ rest).length = cap + 1) (out : List UInt8) :
    Holds cap ⟨c.before.reverse ++ a :: c.after.tail ++ rest, l.num + 1, if c.after.length = 0 then l.eolNum + 1 else l.eolNum, out⟩
      (c.overwrite a) := by
  have hnum := h.num
  have heol := h.eolNum
  have hfits := h.fits
  refine ⟨⟨rest, by simp [Cursor.overwrite]⟩, by simp [Cursor.overwrite, hnum], ?_, ?_, hroom⟩
  · simp only [Cursor.overwrite, List.length_cons, List.length_tail]
    split <;> omega
  · dsimp only
    split
    · exact hlt ‹_›
    · exact hfits

theorem creadAddChar_holds (hcap : 0 < cap) (hword : cap < 2 ^ 32) (h : Holds cap l c) (inserting : Bool) (a : UInt8) :
    ∃ l', creadAddChar a inserting cap l = some l' ∧ Holds cap l' (c.type cap inserting a) := by
  have hnum := h.num
  have heol := h.eolNum
  have hfits := h.fits
  have hgrows : (inserting = true ∨ l.num = l.eolNum) ↔ (inserting = true ∨ c.after.length = 0) := by
    exact or_congr_right (by omega)
  have hfull : ulongSub cap 1 < l.eolNum ↔ cap ≤ c.text.length := by
    rw [ulongSub_of_le hcap hword, Cursor.length_text, ← heol]
    omega
  rw [creadAddChar, Cursor.type]
  simp only [hgrows, hfull]
  by_cases hbeep : (inserting = true ∨ c.after.length = 0) ∧ cap ≤ c.text.length
  · rw [if_pos hbeep, if_pos hbeep]
    exact ⟨_, rfl, h.put _⟩
  rw [if_neg hbeep, if_neg hbeep]
  have hlt (hgrow : inserting = true ∨ c.after.length = 0) : l.eolNum < cap := by
    have hle : ¬ cap ≤ c.text.length := fun hle => hbeep ⟨hgrow, hle⟩
    rw [Cursor.length_text] at hle
    omega
  cases inserting with
  | true =>
      have hwlen : ulongSub (l.eolNum + 1) l.num = c.after.length + 1 := by
        have hlt := hlt (.inl rfl)
        rw [ulongSub_of_le (by omega) (by omega)]
        omega
      obtain ⟨rest, hbytes, hroom⟩ := h.insert_store a
      obtain ⟨buf, hbuf, hstore⟩ := Option.bind_eq_some_iff.mp hbytes
      simp only [true_or, if_true, hwlen, Nat.add_sub_cancel, hbuf, hstore, Option.bind_eq_bind, Option.bind_some]
      exact ⟨_, rfl, h.inserted (hlt (.inl rfl)) hroom _⟩
  | false =>
      obtain ⟨rest, hstore, hroom⟩ := h.overwrite_store a
      simp only [Bool.false_eq_true, if_false, false_or, hstore, Option.bind_eq_bind, Option.bind_some]
      exact ⟨_, rfl, h.overwritten (fun hnil => hlt (.inr hnil)) hroom _⟩

/-- The bytes of a string that is not in the buffer. -/
theorem creadAddStr_holds (hcap : 0 < cap) (hword : cap < 2 ^ 32) (inserting : Bool) (s bs : List UInt8) :
    ∀ (i : Nat) (l : Line) (c : Cursor UInt8), bs <+: s.drop i → Holds cap l c →
      ∃ l', creadAddStr (fun _ i => s.getD i 0) inserting cap bs.length i l = some l' ∧
        Holds cap l' (bs.foldl (fun c a => c.type cap inserting a) c) := by
  induction bs with
  | nil =>
      intro i l c _ h
      exact ⟨l, rfl, h⟩
  | cons a bs ih =>
      intro i l c hpre h
      obtain ⟨t, ht⟩ := hpre
      have hi : s.getD i 0 = a := by
        rw [List.getD_eq_getElem?_getD, ← List.head?_drop, ← ht]
        rfl
      have hrest : bs <+: s.drop (i + 1) := by
        rw [← List.drop_drop, ← ht]
        exact ⟨t, by simp⟩
      obtain ⟨l₁, hl₁, h₁⟩ := creadAddChar_holds hcap hword h inserting a
      obtain ⟨l₂, hl₂, h₂⟩ := ih (i + 1) l₁ _ hrest h₁
      refine ⟨l₂, ?_, h₂⟩
      rw [List.length_cons, creadAddStr, hi, hl₁]
      exact hl₂

/-- The text that is in the buffer at the start is typed onto itself. -/
theorem creadAddStr_self (hword : cap < 2 ^ 32) {bytes t : List UInt8} (hroom : bytes.length = cap + 1) (ht : t.length ≤ cap) :
    ∀ (n i : Nat) (out : List UInt8), i + n = t.length →
      ∃ out', creadAddStr (fun buf i => buf.getD i 0) true cap n i ⟨bytes, i, i, out⟩ =
        some ⟨bytes, t.length, t.length, out'⟩ := by
  intro n
  induction n with
  | zero =>
      intro i out hi
      exact ⟨out, by rw [creadAddStr, ← hi, Nat.add_zero]⟩
  | succ n ih =>
      intro i out hi
      have hlen : i < bytes.length := by omega
      have hstore : store bytes i (bytes.getD i 0) = some bytes := by
        rw [store, if_pos hlen, List.getD_eq_getElem _ _ hlen, List.set_getElem_self]
      have hchar : ∃ out', creadAddChar (bytes.getD i 0) true cap ⟨bytes, i, i, out⟩ = some ⟨bytes, i + 1, i + 1, out'⟩ := by
        have hroom' : ¬ ulongSub cap 1 < i := by
          rw [ulongSub_of_le (by omega) hword]
          omega
        have hwlen : ulongSub (i + 1) i = 1 := by
          rw [ulongSub_of_le (by omega) (by omega)]
          omega
        simp only [creadAddChar, true_or, if_true, hroom', and_false, if_false, hwlen, Nat.lt_irrefl, Option.bind_eq_bind,
          Option.bind_some, hstore]
        exact ⟨_, rfl⟩
      obtain ⟨out₁, hchar⟩ := hchar
      obtain ⟨out₂, hrest⟩ := ih (i + 1) out₁ (by omega)
      refine ⟨out₂, ?_⟩
      rw [creadAddStr, hchar]
      exact hrest

/-- A buffer is its text, a NUL and more. -/
theorem Buf.bytes_eq (b : Buf cap) : ∃ rest, b.bytes = b.text ++ 0 :: rest := by
  have hdrop : b.bytes.dropWhile (· ≠ 0) ≠ [] := by
    rw [ne_eq, List.dropWhile_eq_nil_iff]
    intro h
    exact absurd (h 0 b.ends) (by decide)
  obtain ⟨x, rest, hx⟩ := List.exists_cons_of_ne_nil hdrop
  have hzero : x = 0 := by simpa using not_of_dropWhile hx
  refine ⟨rest, ?_⟩
  rw [← hzero, ← hx, Buf.text, cstr, List.takeWhile_append_dropWhile]

theorem Buf.text_length_le (b : Buf cap) : b.text.length ≤ cap := by
  obtain ⟨rest, h⟩ := b.bytes_eq
  have hlen := congrArg List.length h
  rw [b.length_eq] at hlen
  simp at hlen
  omega

theorem creadLineStart_holds (hword : cap < 2 ^ 32) (b : Buf cap) (hist : Hist) :
    ∃ l, creadLineStart cap b.bytes hist = some ⟨l, true, 0, .replicate 8 0, hist⟩ ∧ Holds cap l (.ofText b.text) := by
  have hle := b.text_length_le
  obtain ⟨rest, hbytes⟩ := b.bytes_eq
  have hholds : ∀ out, Holds cap ⟨b.bytes, b.text.length, b.text.length, out⟩ (.ofText b.text) := fun out =>
    ⟨⟨0 :: rest, by simpa [Cursor.ofText] using hbytes⟩, by simp [Cursor.ofText], by simp [Cursor.ofText], hle, b.length_eq⟩
  rw [creadLineStart, show cstr b.bytes = b.text from rfl]
  by_cases h0 : b.text.length = 0
  · rw [if_neg (not_not.mpr h0)]
    refine ⟨_, rfl, ?_⟩
    have := hholds []
    rwa [h0] at this
  · obtain ⟨out, hrun⟩ := creadAddStr_self hword b.length_eq hle b.text.length 0 [] (Nat.zero_add _)
    rw [if_pos h0, hrun]
    exact ⟨_, rfl, hholds out⟩

/-! ## Moves and deletions -/

theorem beginningOfLineLoop_eq (n : Nat) : ∀ l : Line, l.num = n →
    ∃ out, beginningOfLineLoop n l = ⟨l.buf, 0, l.eolNum, out⟩ := by
  induction n with
  | zero =>
      intro l hn
      exact ⟨l.out, by rw [beginningOfLineLoop, ← hn]⟩
  | succ n ih =>
      intro l hn
      exact ih _ rfl

theorem beginningOfLine_holds (h : Holds cap l c) : Holds cap (beginningOfLine l) c.home := by
  obtain ⟨out, hl⟩ := beginningOfLineLoop_eq l.num l rfl
  obtain ⟨rest, htext⟩ := h.text
  rw [beginningOfLine, hl]
  refine ⟨⟨rest, by simpa [Cursor.home, Cursor.text] using htext⟩, rfl, ?_, h.fits, h.room⟩
  simp [Cursor.home, Cursor.text, h.eolNum]

theorem eraseLoop_eq (n : Nat) : ∀ l : Line, l.num < n → ∃ out, eraseLoop n l = ⟨l.buf, l.num, l.num, out⟩ := by
  induction n with
  | zero =>
      intro l hlt
      omega
  | succ n ih =>
      intro l hlt
      have hstep : eraseLoop (n + 1) l = if l.num < n then eraseLoop n ⟨l.buf, l.num, n, l.out ++ [ctlBackspace]⟩
          else ⟨l.buf, l.num, n, l.out ++ [ctlBackspace]⟩ := rfl
      rw [hstep]
      by_cases hmore : l.num < n
      · rw [if_pos hmore]
        exact ih _ hmore
      · rw [if_neg hmore, show n = l.num by omega]
        exact ⟨_, rfl⟩

theorem eraseToEol_holds (h : Holds cap l c) : Holds cap (eraseToEol l) c.killToEnd := by
  obtain ⟨rest, htext⟩ := h.text
  have hnum := h.num
  have heol := h.eolNum
  have hfits := h.fits
  have hkill : ∀ out, Holds cap ⟨l.buf, l.num, l.num, out⟩ c.killToEnd := fun out =>
    ⟨⟨c.after ++ rest, by simpa [Cursor.killToEnd] using htext⟩, hnum, by simp [Cursor.killToEnd, hnum], by dsimp only; omega,
      h.room⟩
  rw [eraseToEol]
  split
  · obtain ⟨out, hl⟩ := eraseLoop_eq l.eolNum (l.put (.replicate (ulongSub l.eolNum l.num) 32)) ‹_›
    rw [hl]
    exact hkill out
  · have hnil : c.after = [] := List.eq_nil_of_length_eq_zero (by omega)
    rwa [show c.killToEnd = c by rw [Cursor.killToEnd, ← hnil]]

theorem refreshToEol_holds (h : Holds cap l c) : Holds cap (refreshToEol l) c.toEnd := by
  obtain ⟨rest, htext⟩ := h.text
  have hend : ∀ out, Holds cap ⟨l.buf, l.eolNum, l.eolNum, out⟩ c.toEnd := fun out =>
    ⟨⟨rest, by simpa [Cursor.toEnd, Cursor.ofText, Cursor.text] using htext⟩,
      by simp [Cursor.toEnd, Cursor.ofText, Cursor.text, h.eolNum, Nat.add_comm],
      by simp [Cursor.toEnd, Cursor.ofText, Cursor.text, h.eolNum, Nat.add_comm], h.fits, h.room⟩
  rw [refreshToEol]
  split
  · exact hend _
  · have hnum := h.num
    have heol := h.eolNum
    have hnil : c.after = [] := List.eq_nil_of_length_eq_zero (by omega)
    have hsame : c.toEnd = c := by
      obtain ⟨before, after⟩ := c
      simp [Cursor.toEnd, Cursor.ofText, Cursor.text, show after = [] from hnil]
    rwa [hsame]

theorem forward_holds (h : Holds cap l c) : Holds cap (forward l) c.right := by
  obtain ⟨rest, htext⟩ := h.text
  have hnum := h.num
  have heol := h.eolNum
  obtain ⟨before, after⟩ := c
  rw [forward]
  cases after with
  | nil =>
      rw [if_neg (by simp at heol hnum; omega)]
      exact h
  | cons a after =>
      rw [if_pos (by simp at heol hnum; omega)]
      refine ⟨⟨rest, by simpa [Cursor.right, Line.put] using htext⟩, by simp [Cursor.right, hnum], ?_, h.fits, h.room⟩
      simp [Cursor.right, Line.put, heol]
      omega

theorem backward_holds (h : Holds cap l c) : Holds cap (backward l) c.left := by
  obtain ⟨rest, htext⟩ := h.text
  have hnum := h.num
  have heol := h.eolNum
  obtain ⟨before, after⟩ := c
  rw [backward]
  cases before with
  | nil =>
      rw [if_neg (by simpa using hnum)]
      exact h
  | cons a before =>
      rw [if_pos (by simp at hnum; omega)]
      refine ⟨⟨rest, by simpa [Cursor.left, Line.put] using htext⟩, by simp [Cursor.left, hnum], ?_, h.fits, h.room⟩
      simp [Cursor.left, Line.put, heol]
      omega

theorem deleteChar_holds (hword : cap < 2 ^ 32) (h : Holds cap l c) :
    ∃ l', deleteChar l = some l' ∧ Holds cap l' c.deleteRight := by
  obtain ⟨rest, htext⟩ := h.text
  have hnum := h.num
  have heol := h.eolNum
  have hfits := h.fits
  have hroom := h.room
  obtain ⟨before, after⟩ := c
  rw [deleteChar]
  cases after with
  | nil =>
      rw [if_neg (by simp at heol hnum; omega)]
      exact ⟨l, rfl, h⟩
  | cons a after =>
      dsimp only at htext hnum heol
      rw [List.length_cons] at heol
      have hwlen : ulongSub (ulongSub l.eolNum l.num) 1 = after.length := by
        rw [ulongSub_of_le (a := l.eolNum) (by omega) (by omega), ulongSub_of_le (by omega) (by omega)]
        omega
      have hmove : ∃ rest', (if after.length ≠ 0 then memmove l.buf l.num (l.num + 1) after.length else some l.buf) =
          some (before.reverse ++ after ++ rest') ∧ rest'.length = rest.length + 1 := by
        rw [htext, show l.num = before.reverse.length by simpa using hnum]
        split
        · exact delete_bytes ..
        · have hnil : after = [] := List.eq_nil_of_length_eq_zero (by omega)
          exact ⟨a :: rest, by simp [hnil], rfl⟩
      obtain ⟨rest', hbuf, hlen⟩ := hmove
      rw [if_pos (by omega)]
      simp only [hwlen, hbuf, Option.bind_eq_bind, Option.bind_some]
      refine ⟨_, rfl, ⟨⟨rest', rfl⟩, hnum, ?_, by dsimp only; omega, ?_⟩⟩
      · simp [Cursor.deleteRight, heol]
      · rw [htext] at hroom
        simp at hroom ⊢
        omega

theorem backspace_holds (hword : cap < 2 ^ 32) (h : Holds cap l c) :
    ∃ l', backspace l = some l' ∧ Holds cap l' c.deleteLeft := by
  obtain ⟨rest, htext⟩ := h.text
  have hnum := h.num
  have heol := h.eolNum
  have hfits := h.fits
  have hroom := h.room
  obtain ⟨before, after⟩ := c
  rw [backspace]
  cases before with
  | nil =>
      rw [if_neg (by simpa using hnum)]
      exact ⟨l, rfl, h⟩
  | cons a before =>
      dsimp only at htext hnum heol
      rw [List.length_cons] at hnum heol
      have hwlen : ulongSub l.eolNum l.num = after.length := by
        rw [ulongSub_of_le (by omega) (by omega)]
        omega
      have heol' : ulongSub l.eolNum 1 = l.eolNum - 1 := ulongSub_of_le (by omega) (by omega)
      obtain ⟨rest', hbuf, hlen⟩ := delete_bytes before.reverse a after rest
      have hmove : memmove l.buf (l.num - 1) (l.num - 1 + 1) after.length = some (before.reverse ++ after ++ rest') := by
        rw [htext, show l.num - 1 = before.reverse.length by simp [hnum], ← hbuf]
        simp
      rw [if_pos (by omega)]
      simp only [hwlen, heol', hmove, Option.bind_eq_bind, Option.bind_some]
      refine ⟨_, rfl, ⟨⟨rest', rfl⟩, by simp [Cursor.deleteLeft, hnum], ?_, by dsimp only; omega, ?_⟩⟩
      · simp [Cursor.deleteLeft, heol]
      · rw [htext] at hroom
        simp at hroom ⊢
        omega

/-! ## Recall and Enter -/

/-- A recalled line is copied over the buffer, not typed. -/
theorem recallLine_holds {s : State} (h : Holds cap s.line c) {hline : List UInt8} (hle : hline.length ≤ cap)
    (hnul : (0 : UInt8) ∉ hline) :
    ∃ l, recallLine (some hline) s = some (.more { s with line := l }) ∧ Holds cap l (.ofText hline) := by
  have herased := eraseToEol_holds (beginningOfLine_holds h)
  have hroom := herased.room
  have hbytes : ∀ ys, cstr (hline ++ 0 :: ys) = hline := by
    intro ys
    rw [cstr_append fun x hx h0 => hnul (h0 ▸ hx)]
    simp [cstr]
  have hrun : recallLine (some hline) s = (strcpy (eraseToEol (beginningOfLine s.line)).buf hline).bind fun buf =>
      some (.more { s with
        line := refreshToEol { eraseToEol (beginningOfLine s.line) with buf := buf, eolNum := (cstr buf).length } }) := rfl
  rw [hrun]
  generalize eraseToEol (beginningOfLine s.line) = l at herased hroom ⊢
  rw [strcpy, if_pos (by omega), Option.bind_some, hbytes]
  have hcopied : Holds cap { l with buf := hline ++ 0 :: l.buf.drop (hline.length + 1), eolNum := hline.length } ⟨[], hline⟩ :=
    ⟨⟨_, rfl⟩, herased.num, by simp, hle, by simp; omega⟩
  exact ⟨_, rfl, refreshToEol_holds hcopied⟩

/-- A NUL is put behind the text. -/
theorem store_end (h : Holds cap l c) : ∃ rest, store l.buf l.eolNum 0 = some (c.text ++ 0 :: rest) := by
  obtain ⟨x, rest, htext⟩ := h.behind
  refine ⟨rest, ?_⟩
  rw [htext, h.eolNum, show c.before.length + c.after.length = (c.before.reverse ++ c.after).length by simp]
  exact store_append ..

end Uboot.Cli
