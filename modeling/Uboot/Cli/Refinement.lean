import Uboot.Cli.History
import Uboot.Cli.Line

/-!
# The command line editor is an editor

`cread_line` steps as the editor with a cursor does that loses the key behind an escape. Where no key is lost it is the
editor that keeps all of them.
-/

namespace Uboot.Cli

open Lib

/-- `esc_save` holds the escape sequence that has begun. -/
structure Rel (cap : Nat) (s : State) (e : Editor) : Prop where
  line : Holds cap s.line e.cursor
  insert : s.insert = e.inserting
  escLen : s.escLen = e.pending.length
  escSave : e.pending <+: s.escSave
  pending : e.pending.length ≤ 2
  slots : s.escSave.length = 8
  hist : HistRel cap s.hist e.past

/-- A key has the same effect on both. At Enter the buffer has the text and a NUL. -/
inductive Same (cap : Nat) : Next → Editor.Outcome → Prop where
  | more {s : State} {e : Editor} (h : Rel cap s e) : Same cap (.more s) (.more e)
  | entered {s : State} {e : Editor} (hist : HistRel cap s.hist e.past) (rest : List UInt8)
      (buf : s.line.buf = e.cursor.text ++ 0 :: rest) : Same cap (.done 0 e.cursor.text.length s) (.entered e)
  | interrupted {s : State} {e : Editor} (hist : HistRel cap s.hist e.past) (rest : List UInt8)
      (buf : s.line.buf = 0 :: rest) : Same cap (.done (-1) cap s) (.interrupted e)

variable {cap : Nat} {s : State} {e : Editor}

theorem Rel.edit (h : Rel cap s e) {l : Line} {c : Cursor UInt8} (hl : Holds cap l c) :
    Rel cap { s with line := l } { e with cursor := c } :=
  ⟨hl, h.insert, h.escLen, h.escSave, h.pending, h.slots, h.hist⟩

/-- What became of a key -/
def Refines (cap : Nat) (r : Option Next) (o : Editor.Outcome) : Prop := ∃ n, r = some n ∧ Same cap n o

theorem Rel.refines (h : Rel cap s e) {l : Option Line} {c : Cursor UInt8} (hl : ∃ l', l = some l' ∧ Holds cap l' c) :
    Refines cap (l.map fun l => .more { s with line := l }) (.more { e with cursor := c }) := by
  obtain ⟨l', rfl, hholds⟩ := hl
  exact ⟨_, rfl, .more (h.edit hholds)⟩

theorem Rel.recall (h : Rel cap s e) (hesc : s.escLen = 0) {step : Option (List UInt8) × Hist}
    {back : Option (List UInt8 × Recall (List UInt8))}
    (hstep : match back with
      | none => step = (none, s.hist)
      | some (line, past) => step.1 = some line ∧ HistRel cap step.2 past ∧ line.length ≤ cap ∧ (0 : UInt8) ∉ line) :
    Refines cap (recallLine step.1 { s with escLen := 0, hist := step.2 }) (.more (e.showLine back)) := by
  cases back with
  | none =>
      have hstep : step = (none, s.hist) := hstep
      rw [hstep]
      exact ⟨_, rfl, .more ⟨h.line.put _, h.insert, hesc ▸ h.escLen, h.escSave, h.pending, h.slots, h.hist⟩⟩
  | some r =>
      obtain ⟨hline, hhist, hle, hnul⟩ := hstep
      obtain ⟨l, hrun, hholds⟩ := recallLine_holds (s := { s with escLen := 0, hist := step.2 }) h.line hle hnul
      rw [hline, hrun]
      exact ⟨_, rfl, .more ⟨hholds, h.insert, hesc ▸ h.escLen, h.escSave, h.pending, h.slots, hhist⟩⟩

theorem eq_of_else {p : Prop} [Decidable p] {a b c : Key} (h : (if p then a else b) = c) (hne : a ≠ c) : b = c := by
  split at h
  · exact absurd h hne
  · exact h

theorem Key.eq_tab {k : UInt8} (h : Key.of k = .tab) : k = 9 := by
  by_contra hk
  rw [Key.of, if_neg hk] at h
  iterate 13 replace h := eq_of_else h (by decide)
  cases h

/-- The keys of the switch -/
theorem keySwitch_refines (hcap : 0 < cap) (hword : cap < 2 ^ 32) (complete : List UInt8 → Nat → Option (List UInt8 × Nat))
    (h : Rel cap s e) (hnone : e.pending = []) {k : UInt8} (htab : k ≠ 9) :
    Refines cap (keySwitch complete cap k s) (e.press cap k) := by
  have hesc : s.escLen = 0 := by rw [h.escLen, hnone, List.length_nil]
  rw [keySwitch, Editor.press]
  cases hk : Key.of k with
  | esc =>
      obtain ⟨x, rest, hsave⟩ : ∃ x rest, s.escSave = x :: rest := List.exists_cons_of_length_eq_add_one h.slots
      refine ⟨_, rfl, .more ?_⟩
      rw [if_pos hesc]
      refine ⟨h.line, h.insert, rfl, ⟨rest, ?_⟩, by simp, by simpa using h.slots, h.hist⟩
      simp [hsave]
  | home => exact h.refines ⟨_, rfl, beginningOfLine_holds h.line⟩
  | interrupt =>
      obtain ⟨x, rest, hbuf⟩ : ∃ x rest, s.line.buf = x :: rest := List.exists_cons_of_length_eq_add_one h.line.room
      refine ⟨.done (-1) cap { s with line := { s.line with buf := 0 :: rest } }, ?_, .interrupted h.hist rest rfl⟩
      simp [store, hbuf]
  | forward => exact h.refines ⟨_, rfl, forward_holds h.line⟩
  | backward => exact h.refines ⟨_, rfl, backward_holds h.line⟩
  | delete => exact h.refines (deleteChar_holds hword h.line)
  | kill => exact h.refines ⟨_, rfl, eraseToEol_holds h.line⟩
  | toEnd => exact h.refines ⟨_, rfl, refreshToEol_holds h.line⟩
  | toggle =>
      refine ⟨_, rfl, .more ⟨h.line, ?_, h.escLen, h.escSave, h.pending, h.slots, h.hist⟩⟩
      simp [h.insert]
  | clear => exact h.refines ⟨_, rfl, eraseToEol_holds (beginningOfLine_holds h.line)⟩
  | backspace => exact h.refines (backspace_holds hword h.line)
  | prev => exact h.recall hesc (histPrev_rel h.hist)
  | next => exact h.recall hesc (histNext_rel h.hist)
  | tab => exact absurd (Key.eq_tab hk) htab
  | char =>
      have hadd : ∃ l, creadAddChar k s.insert cap s.line = some l ∧ Holds cap l (e.cursor.type cap e.inserting k) := by
        rw [h.insert]
        exact creadAddChar_holds hcap hword h.line e.inserting k
      exact h.refines hadd

theorem prefix_set {xs pre : List UInt8} (h : pre <+: xs) (hlt : pre.length < xs.length) (k : UInt8) :
    pre ++ [k] <+: xs.set pre.length k := by
  obtain ⟨t, rfl⟩ := h
  cases t with
  | nil => simp at hlt
  | cons y t => exact ⟨t, by simp⟩

/-- The bytes of `esc_save` are typed. -/
theorem addEscape_refines (hcap : 0 < cap) (hword : cap < 2 ^ 32) (h : Rel cap s e) {save bs : List UInt8} {n : Nat}
    (hn : n = bs.length) (hbs : bs <+: save) (hsave : save.length = 8) :
    Refines cap (addEscape cap { s with escSave := save, escLen := n }) (.more (Editor.type cap bs { e with pending := [] })) := by
  subst hn
  obtain ⟨l, hl, hholds⟩ := creadAddStr_holds hcap hword s.insert save bs 0 s.line e.cursor hbs h.line
  rw [h.insert] at hholds
  rw [addEscape, hl]
  exact ⟨_, rfl, .more ⟨hholds, h.insert, rfl, List.nil_prefix, Nat.zero_le _, hsave, h.hist⟩⟩

/-- What `cread_line` asks of the buffer is whether the line is one to keep. -/
theorem kept_iff (text rest : List UInt8) :
    ((text ++ 0 :: rest).headD 0 ≠ 0 ∧ (text ++ 0 :: rest).headD 0 ≠ 33) ↔ (cstr text ≠ [] ∧ (cstr text).head? ≠ some 33) := by
  cases text with
  | nil => simp [cstr]
  | cons x text =>
      by_cases hx : x = 0
      · simp [cstr, hx]
      · simp [cstr, hx]

theorem creadLineEnd_refines (h : Rel cap s e) : Refines cap (creadLineEnd cap s) (.entered e.accept) := by
  obtain ⟨rest, hstore⟩ := store_end h.line
  have hlen : s.line.eolNum = e.accept.cursor.text.length := by
    rw [h.line.eolNum, ← Cursor.length_text]
    rfl
  have hfits : (cstr (e.cursor.text ++ 0 :: rest)).length ≤ cap := by
    rw [cstr_append_nul]
    refine Nat.le_trans (List.takeWhile_prefix _).length_le ?_
    rw [Cursor.length_text, ← h.line.eolNum]
    exact h.line.fits
  rw [creadLineEnd, hstore]
  simp only [Option.bind_eq_bind, Option.bind_some, kept_iff]
  by_cases hkeep : cstr e.cursor.text ≠ [] ∧ (cstr e.cursor.text).head? ≠ some 33
  · obtain ⟨hist, hadd, hrel⟩ := creadAddToHist_rel h.hist hfits
    rw [if_pos hkeep, hadd, Option.bind_some, hlen]
    rw [cstr_append_nul] at hrel
    refine ⟨_, rfl, .entered ?_ rest rfl⟩
    rw [Editor.accept]
    simp only [if_pos hkeep]
    exact hrel
  · rw [if_neg hkeep, Option.bind_some, hlen]
    refine ⟨_, rfl, .entered ?_ rest rfl⟩
    rw [Editor.accept]
    simp only [if_neg hkeep]
    exact rewind_rel h.hist

theorem arrow_ne_tab {k c : UInt8} (h : arrow k = some c) : c ≠ 9 := by
  rw [arrow] at h
  split_ifs at h <;> cases h <;> decide

/-- One key. TAB at the start of a sequence is the one that completes. -/
theorem creadKey_refines (hcap : 0 < cap) (hword : cap < 2 ^ 32) (complete : List UInt8 → Nat → Option (List UInt8 × Nat))
    (h : Rel cap s e) {k : UInt8} (htab : k = 9 → e.pending ≠ []) :
    Refines cap (creadKey complete cap k s) (e.stroke true cap k) := by
  rw [creadKey, Editor.stroke]
  by_cases henter : k = 10 ∨ k = 13
  · rw [if_pos henter, if_pos henter]
    exact creadLineEnd_refines h
  rw [if_neg henter, if_neg henter]
  have hlen := h.escLen
  have hpre := h.escSave
  have hmax := h.pending
  match hp : e.pending with
  | [] =>
      rw [hp, List.length_nil] at hlen
      rw [if_pos hlen]
      exact keySwitch_refines hcap hword complete h hp fun h9 => htab h9 hp
  | [esc] =>
      rw [hp] at hpre
      rw [hp, List.length_singleton] at hlen
      rw [if_neg (by omega), if_pos hlen]
      by_cases hbr : k = 91
      · rw [if_pos hbr, hlen]
        dsimp only
        rw [if_pos hbr]
        refine ⟨_, rfl, .more ⟨h.line, h.insert, rfl, ?_, Nat.le_refl 2, by simpa using h.slots, h.hist⟩⟩
        exact prefix_set hpre (by simp [h.slots]) k
      · rw [if_neg hbr]
        dsimp only
        rw [if_neg hbr]
        exact addEscape_refines hcap hword h hlen hpre h.slots
  | [esc, br] =>
      rw [hp] at hpre
      rw [hp] at hlen
      have hlen : s.escLen = 2 := hlen
      rw [if_neg (by omega), if_neg (by omega)]
      dsimp only
      cases hk : arrow k with
      | none =>
          refine addEscape_refines hcap hword h (by rw [hlen]; rfl) ?_ (by simpa using h.slots)
          rw [hlen]
          exact prefix_set hpre (by simp [h.slots]) k
      | some c =>
          have hidle : Rel cap { s with escLen := 0 } { e with pending := [] } :=
            ⟨h.line, h.insert, rfl, List.nil_prefix, Nat.zero_le _, h.slots, h.hist⟩
          exact keySwitch_refines hcap hword complete hidle rfl (arrow_ne_tab hk)
  | _ :: _ :: _ :: _ =>
      rw [hp] at hmax
      simp at hmax

end Uboot.Cli
