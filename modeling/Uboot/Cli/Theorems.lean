import Uboot.Cli.Refinement

/-!
# Whole runs of the command line editor

Calls of `cread_line` one after the other, with the history between them.
-/

namespace Uboot.Cli

open Lib

variable {cap : Nat}

/-- What a call returned for a text: at Enter the text in the buffer, with a NUL. -/
def Answer (a : Int × Nat × List UInt8) : Option (List UInt8) → Prop
  | some text => a.1 = 0 ∧ a.2.1 = text.length ∧ a.2.2.take (text.length + 1) = text ++ [0]
  | none => a.1 = -1 ∧ a.2.2.head? = some 0

structure ConsoleRel (cap : Nat) (c : Console) (d : Desk) : Prop where
  state : Rel cap c.state d.editor
  calls : c.calls = d.calls
  answers : List.Forall₂ Answer c.answers d.lines

/-- A call starts with the text of its buffer and the history. -/
theorem start_rel (hword : cap < 2 ^ 32) (b : Buf cap) {h : Hist} {r : Recall (List UInt8)} (hr : HistRel cap h r) :
    ∃ s, creadLineStart cap b.bytes h = some s ∧ Rel cap s (.start b.text r) := by
  obtain ⟨l, hstart, hholds⟩ := creadLineStart_holds hword b h
  exact ⟨_, hstart, hholds, rfl, rfl, List.nil_prefix, Nat.zero_le _, List.length_replicate, hr⟩

section
variable (hcap : 0 < cap) (hword : cap < 2 ^ 32) (complete : List UInt8 → Nat → Option (List UInt8 × Nat))
  (bufs : Nat → Buf cap)
include hcap hword

theorem consoleKey_rel {c : Console} {d : Desk} (h : ConsoleRel cap c d) {k : UInt8} (htab : k ≠ 9) :
    ∃ c', consoleKey complete bufs k c = some c' ∧ ConsoleRel cap c' (deskKey true bufs k d) := by
  obtain ⟨n, hkey, hsame⟩ := creadKey_refines hcap hword complete h.state fun h9 => absurd h9 htab
  rw [consoleKey, hkey, deskKey]
  have hcalls := h.calls
  generalize d.editor.stroke true cap k = o at hsame ⊢
  cases hsame with
  | more hrel => exact ⟨_, rfl, hrel, h.calls, h.answers⟩
  | @entered s e hist rest buf =>
      obtain ⟨s', hstart, hrel⟩ := start_rel hword (bufs (d.calls + 1)) hist
      rw [← hcalls] at hstart
      have htext : Answer (0, e.cursor.text.length, s.line.buf) (some e.cursor.text) :=
        by
        refine ⟨rfl, rfl, ?_⟩
        dsimp only
        rw [buf, show e.cursor.text ++ 0 :: rest = (e.cursor.text ++ [0]) ++ rest by simp, List.take_left' (by simp)]
      refine ⟨⟨s', c.calls + 1, c.answers ++ [(0, e.cursor.text.length, s.line.buf)]⟩, ?_, hrel, congrArg (· + 1) hcalls, ?_⟩
      · simp only [Option.bind_eq_bind, Option.bind_some, hstart]
      · exact List.rel_append h.answers (.cons htext .nil)
  | @interrupted s e hist rest buf =>
      obtain ⟨s', hstart, hrel⟩ := start_rel hword (bufs (d.calls + 1)) hist
      rw [← hcalls] at hstart
      refine ⟨⟨s', c.calls + 1, c.answers ++ [(-1, cap, s.line.buf)]⟩, ?_, hrel, congrArg (· + 1) hcalls, ?_⟩
      · simp only [Option.bind_eq_bind, Option.bind_some, hstart]
      · exact List.rel_append h.answers (.cons ⟨rfl, by rw [buf]; rfl⟩ .nil)

theorem consoleKeys_rel (ks : List UInt8) : ∀ (c : Console) (d : Desk), ConsoleRel cap c d → (∀ k ∈ ks, k ≠ 9) →
    ∃ c', consoleKeys complete bufs ks c = some c' ∧ ConsoleRel cap c' (deskKeys true bufs ks d) := by
  induction ks with
  | nil =>
      intro c d h _
      exact ⟨c, rfl, h⟩
  | cons k ks ih =>
      intro c d h htab
      obtain ⟨c₁, hkey, h₁⟩ := consoleKey_rel hcap hword complete bufs h (htab k (List.mem_cons_self ..))
      obtain ⟨c₂, hkeys, h₂⟩ := ih c₁ _ h₁ fun k hk => htab k (List.mem_cons_of_mem _ hk)
      refine ⟨c₂, ?_, h₂⟩
      rw [consoleKeys, hkey]
      exact hkeys

end

/-! ## Keys that are not lost -/

/-- How many bytes of an escape sequence are there behind a key. -/
def escAfter (n : Nat) (k : UInt8) : Nat :=
  if k = 10 ∨ k = 13 then 0
  else
    match n with
    | 0 => if k = 0x1b then 1 else 0
    | 1 => if k = 91 then 2 else 0
    | _ => 0

/-- Behind an escape that starts a sequence there is a `[` or Enter. -/
def Whole : Nat → List UInt8 → Prop
  | _, [] => True
  | n, k :: ks => (n = 1 → k = 91 ∨ k = 10 ∨ k = 13) ∧ Whole (escAfter n k) ks

theorem escAfter_le (n : Nat) (k : UInt8) : escAfter n k ≤ 2 := by
  rw [escAfter.eq_def]
  split
  · exact Nat.zero_le 2
  split
  · split <;> simp
  · split <;> simp
  · exact Nat.zero_le 2

instance Whole.decidable : ∀ (n : Nat) (ks : List UInt8), Decidable (Whole n ks)
  | _, [] => .isTrue trivial
  | n, k :: ks =>
    have := Whole.decidable (escAfter n k) ks
    inferInstanceAs (Decidable (_ ∧ _))

def Editor.Outcome.pending : Editor.Outcome → List UInt8
  | .more e => e.pending
  | .entered _ => []
  | .interrupted _ => []

theorem Key.eq_esc {k : UInt8} (h : Key.of k = .esc) : k = 0x1b := by
  by_contra hk
  rw [Key.of, if_neg hk] at h
  iterate 13 replace h := eq_of_else h (by decide)
  cases h

theorem showLine_pending (e : Editor) (r : Option (List UInt8 × Recall (List UInt8))) : (e.showLine r).pending = e.pending := by
  cases r <;> rfl

theorem press_pending {e : Editor} (h : e.pending = []) (k : UInt8) :
    (e.press cap k).pending.length = if k = 0x1b then 1 else 0 := by
  by_cases hk : k = 0x1b
  · rw [if_pos hk, hk]
    rfl
  · rw [if_neg hk, Editor.press]
    cases hkey : Key.of k with
    | esc => exact absurd (Key.eq_esc hkey) hk
    | prev => exact congrArg List.length ((showLine_pending ..).trans h)
    | next => exact congrArg List.length ((showLine_pending ..).trans h)
    | interrupt => rfl
    | _ => exact congrArg List.length h

theorem arrow_ne_esc {k c : UInt8} (h : arrow k = some c) : c ≠ 0x1b := by
  rw [arrow] at h
  split_ifs at h <;> cases h <;> decide

theorem stroke_pending (lossy : Bool) {e : Editor} (hmax : e.pending.length ≤ 2) (k : UInt8) :
    (e.stroke lossy cap k).pending.length = escAfter e.pending.length k := by
  rw [Editor.stroke, escAfter.eq_def]
  by_cases henter : k = 10 ∨ k = 13
  · rw [if_pos henter, if_pos henter]
    rfl
  rw [if_neg henter, if_neg henter]
  rcases hp : e.pending with _ | ⟨esc, _ | ⟨br, _ | ⟨c, rest⟩⟩⟩
  · exact press_pending hp k
  · dsimp only [List.length_singleton]
    by_cases hbr : k = 91
    · rw [if_pos hbr, if_pos hbr]
      rfl
    · rw [if_neg hbr, if_neg hbr]
      rfl
  · dsimp only
    cases hk : arrow k with
    | none => rfl
    | some c =>
        have hpress := @press_pending cap { e with pending := [] } rfl c
        rw [if_neg (arrow_ne_esc hk)] at hpress
        exact hpress
  · rw [hp] at hmax
    simp at hmax

/-- The two editors differ where an escape is cut off. -/
theorem stroke_lossy {e : Editor} {k : UInt8} (h : e.pending.length = 1 → k = 91 ∨ k = 10 ∨ k = 13) :
    e.stroke true cap k = e.stroke false cap k := by
  rw [Editor.stroke, Editor.stroke]
  by_cases henter : k = 10 ∨ k = 13
  · rw [if_pos henter, if_pos henter]
  rw [if_neg henter, if_neg henter]
  rcases hp : e.pending with _ | ⟨esc, _ | ⟨br, rest⟩⟩
  · rfl
  · have hbr : k = 91 := (h (by rw [hp]; rfl)).resolve_right henter
    dsimp only
    rw [if_pos hbr, if_pos hbr]
  · rfl

theorem deskKey_pending (bufs : Nat → Buf cap) (d : Desk) (k : UInt8) :
    (deskKey false bufs k d).editor.pending = (d.editor.stroke false cap k).pending := by
  rw [deskKey]
  cases d.editor.stroke false cap k <;> rfl

/-- Where no key is lost the two editors are the same. -/
theorem deskKeys_lossy (bufs : Nat → Buf cap) (ks : List UInt8) : ∀ d : Desk, d.editor.pending.length ≤ 2 →
    Whole d.editor.pending.length ks → deskKeys true bufs ks d = deskKeys false bufs ks d := by
  induction ks with
  | nil =>
      intro d _ _
      rfl
  | cons k ks ih =>
      intro d hmax hwhole
      obtain ⟨hkey, hrest⟩ := hwhole
      have hstep : deskKey true bufs k d = deskKey false bufs k d := by
        rw [deskKey, deskKey, stroke_lossy hkey]
      have hpending : (deskKey false bufs k d).editor.pending.length = escAfter d.editor.pending.length k := by
        rw [deskKey_pending, stroke_pending false hmax]
      rw [← hpending] at hrest
      have hnext := ih (deskKey false bufs k d) (by rw [hpending]; exact escAfter_le ..) hrest
      simp only [deskKeys, List.foldl_cons] at hnext ⊢
      rw [hstep, hnext]

/-! ## From the first call on -/

/-- An arrow or home key is its control key. -/
theorem deskKeys_arrow (lossy : Bool) (bufs : Nat → Buf cap) {d : Desk} (h : d.editor.pending = []) {k c : UInt8}
    (hk : arrow k = some c) (ks : List UInt8) :
    deskKeys lossy bufs (0x1b :: 91 :: k :: ks) d = deskKeys lossy bufs (c :: ks) d := by
  have hend : ¬ (k = 10 ∨ k = 13) ∧ ¬ (c = 10 ∨ c = 13) := by
    rw [arrow] at hk
    split_ifs at hk with h₁ h₂ h₃ h₄ h₅ <;> cases hk <;> subst_vars <;> decide
  have hesc : deskKey lossy bufs 0x1b d = { d with editor := { d.editor with pending := [0x1b] } } := by
    rw [deskKey, Editor.stroke, h]
    rfl
  have hseq : deskKey lossy bufs k (deskKey lossy bufs 91 (deskKey lossy bufs 0x1b d)) = deskKey lossy bufs c d := by
    rw [hesc]
    have hsame : (⟨d.editor.cursor, d.editor.inserting, [], d.editor.past⟩ : Editor) = d.editor := by rw [← h]
    have hpress : Editor.stroke lossy cap k { d.editor with pending := [0x1b, 91] } = d.editor.stroke lossy cap c := by
      rw [Editor.stroke, Editor.stroke, if_neg hend.1, if_neg hend.2, h]
      dsimp only
      rw [hk]
      dsimp only
      rw [hsame]
    have hbr : deskKey lossy bufs 91 { d with editor := { d.editor with pending := [0x1b] } } =
        { d with editor := { d.editor with pending := [0x1b, 91] } } := rfl
    rw [hbr, deskKey, deskKey, hpress]
  simp only [deskKeys, List.foldl_cons, hseq]

/-- The keys from the first call on, with the history empty. -/
def consoleRun (complete : List UInt8 → Nat → Option (List UInt8 × Nat)) (bufs : Nat → Buf cap) (keys : List UInt8) :
    Option Console := (consoleStart bufs).bind (consoleKeys complete bufs keys)

/-- The line is between its bounds. -/
def Bounded (cap : Nat) (l : Line) : Prop := l.num ≤ l.eolNum ∧ l.eolNum ≤ cap ∧ l.buf.length = cap + 1

/-- The line that is edited and the lines that were entered are those of the editor. -/
def Edits (c : Console) (d : Desk) : Prop :=
  c.state.line.num = d.editor.cursor.before.length ∧
    c.state.line.buf.take c.state.line.eolNum = d.editor.cursor.text ∧ List.Forall₂ Answer c.answers d.lines

theorem consoleRun_rel (hcap : 0 < cap) (hword : cap < 2 ^ 32) (complete : List UInt8 → Nat → Option (List UInt8 × Nat))
    (bufs : Nat → Buf cap) {keys : List UInt8} (htab : ∀ k ∈ keys, k ≠ 9) :
    ∃ c, consoleRun complete bufs keys = some c ∧ ConsoleRel cap c (deskKeys true bufs keys (deskStart bufs)) := by
  obtain ⟨s, hstart, hrel⟩ := start_rel hword (bufs 0) (histInit_rel cap)
  have hconsole : consoleStart bufs = some ⟨s, 0, []⟩ := by
    rw [consoleStart, hstart]
    rfl
  rw [consoleRun, hconsole]
  exact consoleKeys_rel hcap hword complete bufs keys _ _ ⟨hrel, rfl, .nil⟩ htab

theorem ConsoleRel.edits {c : Console} {d : Desk} (h : ConsoleRel cap c d) : Edits c d := by
  obtain ⟨rest, htext⟩ := h.state.line.text
  refine ⟨h.state.line.num, ?_, h.answers⟩
  rw [htext, h.state.line.eolNum, ← Cursor.length_text]
  exact List.take_left

/-- No key writes outside of the buffer or moves a counter out of its bounds. Where no key comes behind an escape but `[`
and Enter the line is the editor's at each step. -/
theorem cread_line_edits (hcap : 0 < cap) (hword : cap < 2 ^ 32) (complete : List UInt8 → Nat → Option (List UInt8 × Nat))
    (bufs : Nat → Buf cap) (keys : List UInt8) (htab : ∀ k ∈ keys, k ≠ 9) :
    ∃ c, consoleRun complete bufs keys = some c ∧ Bounded cap c.state.line ∧
      (Whole 0 keys → Edits c (deskKeys false bufs keys (deskStart bufs))) := by
  obtain ⟨c, hrun, hrel⟩ := consoleRun_rel hcap hword complete bufs htab
  have hline := hrel.state.line
  refine ⟨c, hrun, ⟨?_, hline.fits, hline.room⟩, fun hwhole => ?_⟩
  · rw [hline.num, hline.eolNum]
    exact Nat.le_add_right ..
  · rw [← deskKeys_lossy bufs keys (deskStart bufs) (Nat.zero_le _) hwhole]
    exact hrel.edits

/-- The console buffer at a prompt -/
def emptyBuf (cap : Nat) : Buf cap where
  bytes := .replicate (cap + 1) 0
  length_eq := List.length_replicate
  ends := List.mem_replicate.mpr ⟨Nat.succ_ne_zero _, rfl⟩

/-- `a`, `b`, left, `c` and Enter -/
theorem cread_line_edits_sample :
    ∃ c, consoleRun (fun _ _ => none) (fun _ => emptyBuf 512) [97, 98, 0x1b, 91, 68, 99, 10] = some c ∧
      Bounded 512 c.state.line ∧ List.Forall₂ Answer c.answers [some [97, 99, 98]] := by
  obtain ⟨c, hrun, hbounded, hedits⟩ := @cread_line_edits 512 (by decide) (by decide) (fun _ _ => none)
    (fun _ => emptyBuf 512) [97, 98, 0x1b, 91, 68, 99, 10] (forall_ne_of_all rfl)
  exact ⟨c, hrun, hbounded, (hedits (by decide)).2.2⟩

/-- Escape, `x` and Enter: the `x` is lost. -/
theorem cread_line_loses_key :
    ¬ ∀ (complete : List UInt8 → Nat → Option (List UInt8 × Nat)) (bufs : Nat → Buf 512) (keys : List UInt8),
      (∀ k ∈ keys, k ≠ 9) → ∃ c, consoleRun complete bufs keys = some c ∧ Bounded 512 c.state.line ∧
        Edits c (deskKeys false bufs keys (deskStart bufs)) := by
  intro h
  obtain ⟨c, hrun, -, -, -, hkept⟩ := h (fun _ _ => none) (fun _ => emptyBuf 512) [0x1b, 120, 10] (forall_ne_of_all rfl)
  obtain ⟨c', hrun', hrel⟩ := @consoleRun_rel 512 (by decide) (by decide) (fun _ _ => none) (fun _ => emptyBuf 512)
    [0x1b, 120, 10] (forall_ne_of_all rfl)
  obtain rfl : c = c' := Option.some.inj (hrun.symm.trans hrun')
  have hlost : List.Forall₂ Answer c.answers [some [0x1b]] := hrel.answers
  replace hkept : List.Forall₂ Answer c.answers [some [0x1b, 120]] := hkept
  generalize c.answers = answers at hlost hkept
  cases hlost with
  | cons hone _ =>
      cases hkept with
      | cons htwo _ => exact absurd (hone.2.1.symm.trans htwo.2.1) (by decide)

end Uboot.Cli
