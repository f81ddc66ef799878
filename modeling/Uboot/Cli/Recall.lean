import Uboot.Cli.Theorems

/-!
# Recalling lines

Where the up and down keys stand in the history, over whole runs. Enter goes back to the newest line; `^C` does not.
-/

namespace Uboot.Cli

open Lib

variable {cap : Nat}

/-! ## The keys that move in the history -/

/-- The place behind a key, with `m` lines to recall. -/
def hop (m back : Nat) : Key → Nat
  | .prev => min (back + 1) m
  | .next => back - 1
  | _ => back

/-- The bytes of an escape sequence and the place behind a key. -/
def walkKey (m : Nat) (p : Nat × Nat) (k : UInt8) : Nat × Nat :=
  (escAfter p.1 k,
    match p.1 with
    | 0 => hop m p.2 (Key.of k)
    | 1 => p.2
    | _ => (arrow k).elim p.2 fun c => hop m p.2 (Key.of c))

/-- The keys behind the last Enter -/
def sinceEnter (keys : List UInt8) : List UInt8 := (keys.reverse.takeWhile fun k => k ≠ 10 ∧ k ≠ 13).reverse

def walk (m : Nat) (keys : List UInt8) : Nat × Nat := (sinceEnter keys).foldl (walkKey m) (0, 0)

/-- How far back the keys since the last Enter have gone. -/
def place (m : Nat) (keys : List UInt8) : Nat := (walk m keys).2

/-- The last key ended a call. -/
def Ended (keys : List UInt8) : Prop :=
  ∀ k ∈ keys.getLast?, k = 10 ∨ k = 13 ∨ (k = 3 ∧ (walk 0 keys.dropLast).1 = 0)

/-- The line of an answer, if it is kept. -/
def kept (a : Int × Nat × List UInt8) : Option (List UInt8) :=
  let line := cstr a.2.2
  if a.1 = 0 ∧ line ≠ [] ∧ line.head? ≠ some 33 then some line else none

/-- The lines that can be recalled, the last one first. -/
def recallable (c : Console) : List (List UInt8) := (c.answers.filterMap kept).reverse.take (histMaxLines - 1)

/-- `^P`, or the up arrow -/
def upKey (isArrow : Bool) : List UInt8 := if isArrow then [0x1b, 91, 65] else [ctlCh 'p']

def downKey (isArrow : Bool) : List UInt8 := if isArrow then [0x1b, 91, 66] else [ctlCh 'n']

/-- What the line shows. -/
def Shows (c : Console) (text : List UInt8) : Prop := c.state.line.buf.take c.state.line.eolNum = text

/-- What is shown behind `k` up keys, from a line with `text`. -/
def behindUps (lines : List (List UInt8)) (text : List UInt8) (k : Nat) : List UInt8 :=
  match min k lines.length with
  | 0 => text
  | k + 1 => lines.getD k []

section
variable (complete : List UInt8 → Nat → Option (List UInt8 × Nat)) (bufs : Nat → Buf cap)

/-- The `k`-th up key shows the `k`-th last line, until there are no more, and a down key goes back to what was shown before,
which is an empty line in front of all. -/
def Recalls (c : Console) : Prop :=
  ∀ ups : List Bool, ∃ c', consoleKeys complete bufs (ups.flatMap upKey) c = some c' ∧
    Shows c' (behindUps (recallable c) (bufs c.calls).text ups.length) ∧
    (0 < ups.length → ups.length ≤ (recallable c).length → ∀ isArrow, ∃ c'',
      consoleKeys complete bufs (downKey isArrow) c' = some c'' ∧ Shows c'' (behindUps (recallable c) [] (ups.length - 1)))

end

/-- `cmd_auto_complete` stays within the line. -/
def Completes (cap : Nat) (complete : List UInt8 → Nat → Option (List UInt8 × Nat)) : Prop :=
  ∀ buf num buf' num2, complete buf num = some (buf', num2) → num ≤ cap → buf'.length = buf.length ∧ num ≤ num2 ∧ num2 ≤ cap

/-! ## One key -/

section
variable {e : Editor} {k : UInt8}

/-- What a key does to the history. -/
def Follows (e : Editor) (k : UInt8) : Editor.Outcome → Prop
  | .more e' => ¬ (k = 10 ∨ k = 13) ∧ ¬ (k = 3 ∧ e.pending.length = 0) ∧ e'.past.lines = e.past.lines ∧
      (e'.pending.length, e'.past.back) = walkKey e.past.lines.length (e.pending.length, e.past.back) k
  | .entered e' => (k = 10 ∨ k = 13) ∧ e'.past = ({ e with cursor := e'.cursor }).accept.past
  | .interrupted e' => ¬ (k = 10 ∨ k = 13) ∧ k = 3 ∧ e.pending.length = 0 ∧ e'.past = e.past

theorem showLine_prev (e : Editor) : (e.showLine e.past.prev).past.lines = e.past.lines ∧
    (e.showLine e.past.prev).past.back = hop e.past.lines.length e.past.back .prev := by
  rw [hop, Recall.prev]
  split
  · exact ⟨rfl, by dsimp only [Editor.showLine]; omega⟩
  · have := e.past.back_le
    exact ⟨rfl, by dsimp only [Editor.showLine]; omega⟩

theorem showLine_next (e : Editor) : (e.showLine (e.past.next [])).past.lines = e.past.lines ∧
    (e.showLine (e.past.next [])).past.back = hop e.past.lines.length e.past.back .next := by
  obtain ⟨cursor, inserting, pending, lines, back, hle⟩ := e
  match back with
  | 0 => exact ⟨rfl, rfl⟩
  | 1 => exact ⟨rfl, rfl⟩
  | n + 2 => exact ⟨rfl, rfl⟩

theorem Key.eq_interrupt (h : Key.of k = .interrupt) : k = 3 := by
  by_contra hk
  rw [Key.of] at h
  iterate 2 replace h := eq_of_else h (by decide)
  rw [if_neg (show ¬ k = ctlCh 'c' from hk)] at h
  iterate 11 replace h := eq_of_else h (by decide)
  cases h

theorem press_follows (hnone : e.pending = []) (henter : ¬ (k = 10 ∨ k = 13)) : Follows e k (e.press cap k) := by
  have hzero : e.pending.length = 0 := by rw [hnone, List.length_nil]
  have hesc : escAfter 0 k = if k = 0x1b then 1 else 0 := if_neg henter
  have hpending := @press_pending cap e hnone k
  rw [← hesc] at hpending
  have hmore : ∀ e' : Editor, e.press cap k = .more e' → Key.of k ≠ .interrupt → e'.past.lines = e.past.lines →
      e'.past.back = hop e.past.lines.length e.past.back (Key.of k) → Follows e k (e.press cap k) := by
    intro e' hpress hkey hlines hback
    rw [hpress] at hpending ⊢
    refine ⟨henter, fun h3 => hkey (by rw [h3.1]; rfl), hlines, ?_⟩
    rw [walkKey, hzero, hback, ← hpending]
    rfl
  cases hkey : Key.of k with
  | interrupt =>
      rw [Editor.press, hkey]
      exact ⟨henter, Key.eq_interrupt hkey, hzero, rfl⟩
  | prev =>
      obtain ⟨hlines, hback⟩ := showLine_prev e
      exact hmore (e.showLine e.past.prev) (by rw [Editor.press, hkey]) (by rw [hkey]; decide) hlines (by rw [hkey, hback])
  | next =>
      obtain ⟨hlines, hback⟩ := showLine_next e
      exact hmore (e.showLine (e.past.next [])) (by rw [Editor.press, hkey]) (by rw [hkey]; decide) hlines (by rw [hkey, hback])
  | _ =>
      have hpress : ∃ e', e.press cap k = .more e' ∧ e'.past = e.past := by
        rw [Editor.press, hkey]
        exact ⟨_, rfl, rfl⟩
      obtain ⟨e', hpress, hpast⟩ := hpress
      exact hmore e' hpress (by rw [hkey]; decide) (by rw [hpast]) (by rw [hkey, hpast]; rfl)

theorem arrow_not_enter {c : UInt8} (h : arrow k = some c) : ¬ (c = 10 ∨ c = 13) := by
  rw [arrow] at h
  split_ifs at h <;> cases h <;> decide

theorem arrow_enter {c : UInt8} (h : arrow k = some c) : ¬ (k = 10 ∨ k = 13) := by
  rw [arrow] at h
  split_ifs at h <;> subst_vars <;> decide

theorem arrow_ne_interrupt {c : UInt8} (h : arrow k = some c) : c ≠ 3 := by
  rw [arrow] at h
  split_ifs at h <;> cases h <;> decide

theorem stroke_follows (hmax : e.pending.length ≤ 2) : Follows e k (e.stroke true cap k) := by
  have hpending := @stroke_pending cap true e hmax k
  by_cases henter : k = 10 ∨ k = 13
  · rw [Editor.stroke, if_pos henter]
    exact ⟨henter, rfl⟩
  have hmore : ∀ e' : Editor, e.stroke true cap k = .more e' → e.pending.length ≠ 0 → e'.past = e.past →
      (walkKey e.past.lines.length (e.pending.length, e.past.back) k).2 = e.past.back → Follows e k (e.stroke true cap k) := by
    intro e' hstroke hne hpast hback
    rw [hstroke] at hpending ⊢
    refine ⟨henter, fun h3 => hne h3.2, by rw [hpast], ?_⟩
    rw [show e'.pending.length = escAfter e.pending.length k from hpending, hpast]
    exact Prod.ext rfl hback.symm
  rcases hp : e.pending with _ | ⟨esc, _ | ⟨br, _ | ⟨c, rest⟩⟩⟩
  · have hstroke : e.stroke true cap k = e.press cap k := by rw [Editor.stroke, if_neg henter, hp]
    rw [hstroke]
    exact press_follows hp henter
  · have hone : e.pending.length = 1 := by rw [hp, List.length_singleton]
    by_cases hbr : k = 91
    · exact hmore { e with pending := [esc, k] } (by rw [Editor.stroke, if_neg henter, hp]; exact if_pos hbr) (by omega) rfl
        (by rw [walkKey, hone]; rfl)
    · exact hmore (Editor.type cap [esc] { e with pending := [] }) (by rw [Editor.stroke, if_neg henter, hp]; exact if_neg hbr)
        (by omega) rfl (by rw [walkKey, hone]; rfl)
  · have htwo : e.pending.length = 2 := by rw [hp]; rfl
    cases hk : arrow k with
    | none =>
        exact hmore (Editor.type cap [esc, br, k] { e with pending := [] })
          (by rw [Editor.stroke, if_neg henter, hp]; dsimp only; rw [hk]; rfl) (by omega) rfl (by rw [walkKey, htwo]; simp [hk])
    | some c =>
        have hstroke : e.stroke true cap k = Editor.press cap c { e with pending := [] } := by
          rw [Editor.stroke, if_neg henter, hp]
          dsimp only
          rw [hk]
        have hpress := @press_follows cap { e with pending := [] } c rfl (arrow_not_enter hk)
        rw [hstroke] at hpending ⊢
        cases hout : Editor.press cap c { e with pending := [] } with
        | more e' =>
            rw [hout] at hpress hpending
            obtain ⟨-, -, hlines, hwalk⟩ := hpress
            refine ⟨henter, fun h3 => by omega, hlines, ?_⟩
            have hback := congrArg Prod.snd hwalk
            dsimp only [walkKey] at hback ⊢
            rw [show e'.pending.length = escAfter e.pending.length k from hpending, htwo, hk]
            exact Prod.ext rfl hback
        | entered e' =>
            rw [hout] at hpress
            exact absurd hpress.1 (arrow_not_enter hk)
        | interrupted e' =>
            rw [hout] at hpress
            exact absurd hpress.2.1 (arrow_ne_interrupt hk)
  · rw [hp] at hmax
    simp at hmax

end

theorem walk_snoc (m : Nat) (keys : List UInt8) {k : UInt8} (h : ¬ (k = 10 ∨ k = 13)) :
    walk m (keys ++ [k]) = walkKey m (walk m keys) k := by
  have hk : decide (k ≠ 10 ∧ k ≠ 13) = true := decide_eq_true (not_or.mp h)
  have hsince : sinceEnter (keys ++ [k]) = sinceEnter keys ++ [k] := by
    rw [sinceEnter, sinceEnter, List.reverse_append, List.reverse_singleton, List.singleton_append, List.takeWhile_cons, hk]
    exact List.reverse_cons
  rw [walk, walk, hsince, List.foldl_append]
  rfl

theorem walk_enter (m : Nat) (keys : List UInt8) {k : UInt8} (h : k = 10 ∨ k = 13) : walk m (keys ++ [k]) = (0, 0) := by
  have hk : decide (k ≠ 10 ∧ k ≠ 13) = false := decide_eq_false fun hn => h.elim hn.1 hn.2
  rw [walk, sinceEnter, List.reverse_append, List.reverse_singleton, List.singleton_append, List.takeWhile_cons, hk]
  rfl

/-! ## One key of the code -/

theorem tab_holds {complete : List UInt8 → Nat → Option (List UInt8 × Nat)} (hcomplete : Completes cap complete) {l : Line}
    {c : Cursor UInt8} (h : Holds cap l c) : ∃ l' c', tab complete l = some l' ∧ Holds cap l' c' := by
  have hnum := h.num
  have heol := h.eolNum
  have hfits := h.fits
  have hroom := h.room
  rw [tab]
  by_cases hlt : l.num < l.eolNum
  · rw [if_pos hlt]
    exact ⟨_, c, rfl, h.put _⟩
  obtain ⟨rest, hstore⟩ := store_end h
  have hend : l.num = l.eolNum := by omega
  have hlen : (c.text ++ 0 :: rest).length = cap + 1 := by
    rw [store, if_pos (by omega)] at hstore
    rw [← Option.some.inj hstore, List.length_set, hroom]
  rw [if_neg hlt, hend, hstore]
  simp only [Option.bind_eq_bind, Option.bind_some]
  cases hcall : complete (c.text ++ 0 :: rest) l.eolNum with
  | none => exact ⟨_, c, rfl, ⟨0 :: rest, by simp [Cursor.text]⟩, hend.symm.trans hnum, heol, hfits, hlen⟩
  | some r =>
      obtain ⟨buf', num2⟩ := r
      obtain ⟨hsame, hle, hcap⟩ := hcomplete _ _ _ _ hcall hfits
      refine ⟨_, .ofText (buf'.take num2), rfl, ⟨buf'.drop num2, by simp [Cursor.ofText]⟩, ?_, ?_, ?_, ?_⟩
      · simp only [Cursor.ofText, List.length_reverse, List.length_take]
        omega
      · simp only [Cursor.ofText, List.length_reverse, List.length_take, List.length_nil]
        omega
      · dsimp only
        omega
      · exact hsame.trans hlen

section
variable (hcap : 0 < cap) (hword : cap < 2 ^ 32) {complete : List UInt8 → Nat → Option (List UInt8 × Nat)}
  (hcomplete : Completes cap complete)
include hcap hword hcomplete

theorem creadKey_follows {s : State} {e : Editor} (h : Rel cap s e) (k : UInt8) :
    ∃ n o, creadKey complete cap k s = some n ∧ Same cap n o ∧ Follows e k o := by
  by_cases htab : k = 9 → e.pending ≠ []
  · obtain ⟨n, hkey, hsame⟩ := creadKey_refines hcap hword complete h htab
    exact ⟨n, _, hkey, hsame, stroke_follows h.pending⟩
  · obtain ⟨rfl, hnone⟩ : k = 9 ∧ e.pending = [] := by
      rw [Classical.not_imp, not_not] at htab
      exact htab
    have hesc : s.escLen = 0 := by rw [h.escLen, hnone, List.length_nil]
    obtain ⟨l', c', htabs, hholds⟩ := tab_holds hcomplete h.line
    refine ⟨.more { s with line := l' }, .more { e with cursor := c' }, ?_, .more (h.edit hholds), ?_⟩
    · rw [creadKey, if_neg (by decide), if_pos hesc, keySwitch]
      dsimp only
      rw [show Key.of 9 = .tab from rfl]
      dsimp only
      rw [htabs]
      rfl
    · refine ⟨by decide, fun h3 => absurd h3.1 (by decide), rfl, ?_⟩
      dsimp only
      rw [hnone]
      rfl

end

/-! ## Runs -/

theorem consoleKeys_append (complete : List UInt8 → Nat → Option (List UInt8 × Nat)) (bufs : Nat → Buf cap) (ks ks' : List UInt8) :
    ∀ c, consoleKeys complete bufs (ks ++ ks') c = (consoleKeys complete bufs ks c).bind (consoleKeys complete bufs ks') := by
  induction ks with
  | nil =>
      intro c
      rfl
  | cons k ks ih =>
      intro c
      rw [List.cons_append, consoleKeys, consoleKeys]
      cases consoleKey complete bufs k c with
      | none => rfl
      | some c' => exact ih c'

theorem consoleKeys_snoc (complete : List UInt8 → Nat → Option (List UInt8 × Nat)) (bufs : Nat → Buf cap) (ks : List UInt8)
    (k : UInt8) (c : Console) : consoleKeys complete bufs (ks ++ [k]) c =
      (consoleKeys complete bufs ks c).bind (consoleKey complete bufs k) := by
  rw [consoleKeys_append]
  refine congrArg _ (funext fun c => ?_)
  rw [consoleKeys]
  cases consoleKey complete bufs k c <;> rfl

theorem walk_fst (m : Nat) (keys : List UInt8) : (walk m keys).1 = (walk 0 keys).1 := by
  have hfold : ∀ (ks : List UInt8) (p q : Nat × Nat), p.1 = q.1 →
      (ks.foldl (walkKey m) p).1 = (ks.foldl (walkKey 0) q).1 := by
    intro ks
    induction ks with
    | nil =>
        intro p q h
        exact h
    | cons k ks ih =>
        intro p q h
        exact ih _ _ (congrArg (escAfter · k) h)
  exact hfold _ _ _ rfl

theorem ended_snoc (keys : List UInt8) (k : UInt8) :
    Ended (keys ++ [k]) ↔ k = 10 ∨ k = 13 ∨ (k = 3 ∧ (walk 0 keys).1 = 0) := by
  simp [Ended]

/-- What is known of the history behind the keys. -/
structure Kept (bufs : Nat → Buf cap) (keys : List UInt8) (c : Console) (e : Editor) : Prop where
  state : Rel cap c.state e
  lines : e.past.lines = recallable c
  walk : (e.pending.length, e.past.back) = walk e.past.lines.length keys
  start : Ended keys → e.cursor = .ofText (bufs c.calls).text ∧ e.pending = []

theorem kept_entered (len : Nat) (text rest : List UInt8) : kept (0, len, text ++ 0 :: rest) =
    if cstr text ≠ [] ∧ (cstr text).head? ≠ some 33 then some (cstr text) else none := by
  simp only [kept, cstr_append_nul, true_and]

theorem take_cons_take {α : Type} (n : Nat) (a : α) (l : List α) : (a :: l.take n).take n = (a :: l).take n := by
  cases n with
  | zero => rfl
  | succ n => simp [List.take_take]

theorem recallable_snoc (c : Console) (s : State) (n : Nat) (a : Int × Nat × List UInt8) :
    recallable ⟨s, n, c.answers ++ [a]⟩ =
      (kept a).elim (recallable c) fun line => (line :: recallable c).take (histMaxLines - 1) := by
  rw [recallable, List.filterMap_append, List.reverse_append]
  cases hk : kept a with
  | none => simp [hk, recallable]
  | some line =>
      rw [Option.elim_some, recallable, take_cons_take]
      simp [hk]

theorem accept_past (e : Editor) (len : Nat) (rest : List UInt8) : e.accept.past.lines =
      (kept (0, len, e.cursor.text ++ 0 :: rest)).elim e.past.lines
        (fun line => (line :: e.past.lines).take (histMaxLines - 1)) ∧
    e.accept.past.back = 0 := by
  rw [kept_entered, Editor.accept]
  dsimp only
  split
  · exact ⟨rfl, rfl⟩
  · exact ⟨rfl, rfl⟩

section
variable (hcap : 0 < cap) (hword : cap < 2 ^ 32) {complete : List UInt8 → Nat → Option (List UInt8 × Nat)}
  (hcomplete : Completes cap complete) {bufs : Nat → Buf cap}
include hcap hword hcomplete

theorem consoleKey_kept {keys : List UInt8} {c : Console} {e : Editor} (h : Kept bufs keys c e) (k : UInt8) :
    ∃ c' e', consoleKey complete bufs k c = some c' ∧ Kept bufs (keys ++ [k]) c' e' := by
  obtain ⟨n, o, hkey, hsame, hfollows⟩ := creadKey_follows hcap hword hcomplete h.state k
  have hzero : (walk 0 keys).1 = e.pending.length := by rw [← walk_fst e.past.lines.length, ← h.walk]
  rw [consoleKey, hkey]
  cases hsame with
  | @more s e' hrel =>
      obtain ⟨henter, hint, hlines, hwalk⟩ := hfollows
      refine ⟨_, e', rfl, hrel, hlines.trans h.lines, ?_, fun hend => ?_⟩
      · rw [hwalk, hlines, walk_snoc _ _ henter, h.walk]
      · rw [ended_snoc, hzero] at hend
        exact absurd hend fun h => h.elim (fun h => henter (.inl h)) fun h => h.elim (fun h => henter (.inr h)) hint
  | @entered s e' hist rest buf =>
      obtain ⟨henter, hpast⟩ := hfollows
      obtain ⟨hlines, hback⟩ := accept_past { e with cursor := e'.cursor } e'.cursor.text.length rest
      obtain ⟨s', hstart, hrel⟩ := start_rel hword (bufs (c.calls + 1)) hist
      refine ⟨⟨s', c.calls + 1, c.answers ++ [(0, e'.cursor.text.length, s.line.buf)]⟩, _, ?_, hrel, ?_, ?_, fun _ => ⟨rfl, rfl⟩⟩
      · simp only [Option.bind_eq_bind, Option.bind_some, hstart]
      · rw [recallable_snoc, buf]
        exact (congrArg Recall.lines hpast).trans (h.lines ▸ hlines)
      · rw [walk_enter _ _ henter]
        exact Prod.ext rfl ((congrArg Recall.back hpast).trans hback)
  | @interrupted s e' hist rest buf =>
      obtain ⟨henter, hk, hnone, hpast⟩ := hfollows
      obtain ⟨s', hstart, hrel⟩ := start_rel hword (bufs (c.calls + 1)) hist
      refine ⟨⟨s', c.calls + 1, c.answers ++ [(-1, cap, s.line.buf)]⟩, _, ?_, hrel, ?_, ?_, fun _ => ⟨rfl, rfl⟩⟩
      · simp only [Option.bind_eq_bind, Option.bind_some, hstart]
      · rw [recallable_snoc]
        exact (congrArg Recall.lines hpast).trans h.lines
      · have hwalk := h.walk
        rw [walk_snoc _ _ henter, hk]
        dsimp only [Editor.start]
        rw [hpast, ← hwalk, hnone]
        rfl

theorem consoleRun_kept (keys : List UInt8) : ∃ c e, consoleRun complete bufs keys = some c ∧ Kept bufs keys c e := by
  induction keys using List.reverseRecOn with
  | nil =>
      obtain ⟨s, hstart, hrel⟩ := start_rel hword (bufs 0) (histInit_rel cap)
      refine ⟨⟨s, 0, []⟩, _, ?_, hrel, rfl, rfl, fun _ => ⟨rfl, rfl⟩⟩
      rw [consoleRun, consoleStart, hstart]
      rfl
  | append_singleton keys k ih =>
      obtain ⟨c, e, hrun, hkept⟩ := ih
      obtain ⟨c', e', hkey, hkept'⟩ := consoleKey_kept hcap hword hcomplete hkept k
      refine ⟨c', e', ?_, hkept'⟩
      have happend : consoleRun complete bufs (keys ++ [k]) = (consoleRun complete bufs keys).bind (consoleKey complete bufs k) := by
        rw [consoleRun, consoleRun, Option.bind_assoc]
        exact congrArg _ (funext fun c => consoleKeys_snoc complete bufs keys k c)
      rw [happend, hrun]
      exact hkey

end

/-! ## Up and down -/

/-- The line is the one at the place in the history. -/
def AtPlace (text : List UInt8) (e : Editor) : Prop :=
  e.pending = [] ∧ e.cursor.text = behindUps e.past.lines text e.past.back

theorem behindUps_zero (lines : List (List UInt8)) (text : List UInt8) : behindUps lines text 0 = text := by
  rw [behindUps, Nat.zero_min]

theorem behindUps_min (lines : List (List UInt8)) (text : List UInt8) (k : Nat) :
    behindUps lines text (min k lines.length) = behindUps lines text k := by
  rw [behindUps, behindUps, Nat.min_assoc, Nat.min_self]

theorem behindUps_succ {lines : List (List UInt8)} {k : Nat} (hk : k < lines.length) (text : List UInt8) :
    behindUps lines text (k + 1) = lines.get ⟨k, hk⟩ := by
  rw [behindUps, Nat.min_eq_left hk]
  exact List.getD_eq_getElem _ _ hk

theorem atPlace_up {e : Editor} (hnone : e.pending = []) (hlt : e.past.back < e.past.lines.length) (text : List UInt8) :
    AtPlace text (e.showLine e.past.prev) := by
  refine ⟨(showLine_pending ..).trans hnone, ?_⟩
  rw [Recall.prev, dif_pos hlt]
  exact Cursor.text_ofText.trans (behindUps_succ hlt text).symm

theorem showLine_last {e : Editor} (hlt : ¬ e.past.back < e.past.lines.length) : e.showLine e.past.prev = e := by
  rw [Recall.prev, dif_neg hlt]
  rfl

theorem AtPlace.up {text : List UInt8} {e : Editor} (h : AtPlace text e) : AtPlace text (e.showLine e.past.prev) := by
  by_cases hlt : e.past.back < e.past.lines.length
  · exact atPlace_up h.1 hlt text
  · rw [showLine_last hlt]
    exact h

theorem AtPlace.down {text : List UInt8} {e : Editor} (h : AtPlace text e) (hpos : 0 < e.past.back) :
    AtPlace [] (e.showLine (e.past.next [])) := by
  refine ⟨(showLine_pending ..).trans h.1, ?_⟩
  obtain ⟨cursor, inserting, pending, lines, back, hle⟩ := e
  match back with
  | 0 => exact absurd hpos (Nat.lt_irrefl 0)
  | 1 => exact Cursor.text_ofText.trans (behindUps_zero _ _).symm
  | n + 2 => exact Cursor.text_ofText.trans (behindUps_succ _ []).symm

theorem Rel.shows {c : Console} {e : Editor} (h : Rel cap c.state e) : Shows c e.cursor.text := by
  obtain ⟨rest, htext⟩ := h.line.text
  rw [Shows, htext, h.line.eolNum, ← Cursor.length_text]
  exact List.take_left

theorem recallable_ne_nil (c : Console) : ∀ line ∈ recallable c, line ≠ [] := by
  intro line hline
  obtain ⟨a, -, ha⟩ := List.mem_filterMap.mp (List.mem_reverse.mp (List.mem_of_mem_take hline))
  dsimp only [kept] at ha
  split at ha
  · rename_i hkeep
    exact Option.some.inj ha ▸ hkeep.2.1
  · cases ha

theorem behindUps_ne_nil {lines : List (List UInt8)} (hlines : ∀ line ∈ lines, line ≠ []) (hne : 0 < lines.length)
    (text : List UInt8) {k : Nat} (hk : 0 < k) : behindUps lines text k ≠ [] := by
  obtain ⟨i, hi⟩ : ∃ i, min k lines.length = i + 1 := ⟨min k lines.length - 1, by omega⟩
  rw [behindUps, hi]
  dsimp only
  rw [List.getD_eq_getElem _ _ (by omega)]
  exact hlines _ (List.getElem_mem _)

/-- The call goes on. -/
structure Goes (cap : Nat) (c c' : Console) (e' : Editor) : Prop where
  state : Rel cap c'.state e'
  calls : c'.calls = c.calls
  answers : c'.answers = c.answers

section
variable (hcap : 0 < cap) (hword : cap < 2 ^ 32) (complete : List UInt8 → Nat → Option (List UInt8 × Nat)) (bufs : Nat → Buf cap)
include hcap hword

theorem goes_key {c : Console} {e e' : Editor} (h : Rel cap c.state e) {k : UInt8} (htab : k ≠ 9)
    (hstroke : e.stroke true cap k = .more e') : ∃ c', consoleKey complete bufs k c = some c' ∧ Goes cap c c' e' := by
  obtain ⟨n, hkey, hsame⟩ := creadKey_refines hcap hword complete h fun h9 => absurd h9 htab
  rw [hstroke] at hsame
  rw [consoleKey, hkey]
  cases hsame with
  | more hrel => exact ⟨_, rfl, hrel, rfl, rfl⟩

/-- A key and the arrow that stands for it -/
theorem goes_arrow {c : Console} {e e' : Editor} (h : Rel cap c.state e) (hnone : e.pending = []) {k key : UInt8}
    (harrow : arrow k = some key) (hk : k ≠ 9) (hpress : e.press cap key = .more e') (isArrow : Bool) :
    ∃ c', consoleKeys complete bufs (if isArrow then [0x1b, 91, k] else [key]) c = some c' ∧ Goes cap c c' e' := by
  have henter := arrow_not_enter harrow
  cases isArrow with
  | false =>
      have hstroke : e.stroke true cap key = .more e' := by rw [Editor.stroke, if_neg henter, hnone, ← hpress]
      obtain ⟨c', hkey, hgoes⟩ := goes_key hcap hword complete bufs h (arrow_ne_tab harrow) hstroke
      refine ⟨c', ?_, hgoes⟩
      rw [if_neg Bool.false_ne_true, consoleKeys, hkey]
      rfl
  | true =>
      have hesc : e.stroke true cap 0x1b = .more { e with pending := [0x1b] } := by
        rw [Editor.stroke, hnone]
        rfl
      have hbr : Editor.stroke true cap 91 { e with pending := [0x1b] } = .more { e with pending := [0x1b, 91] } := rfl
      have hlast : Editor.stroke true cap k { e with pending := [0x1b, 91] } = .more e' := by
        have hsame : ({ e with pending := [] } : Editor) = e := by rw [← hnone]
        rw [Editor.stroke, if_neg (arrow_enter harrow)]
        dsimp only
        rw [harrow]
        dsimp only
        rw [hsame, hpress]
      obtain ⟨c₁, hkey₁, hgoes₁⟩ := goes_key hcap hword complete bufs h (show 0x1b ≠ 9 by decide) hesc
      obtain ⟨c₂, hkey₂, hgoes₂⟩ := goes_key hcap hword complete bufs hgoes₁.state (show 91 ≠ 9 by decide) hbr
      obtain ⟨c₃, hkey₃, hgoes₃⟩ := goes_key hcap hword complete bufs hgoes₂.state hk hlast
      refine ⟨c₃, ?_, hgoes₃.state, hgoes₃.calls.trans (hgoes₂.calls.trans hgoes₁.calls),
        hgoes₃.answers.trans (hgoes₂.answers.trans hgoes₁.answers)⟩
      rw [if_pos rfl, consoleKeys, hkey₁]
      simp only [Option.bind_eq_bind, Option.bind_some]
      rw [consoleKeys, hkey₂]
      simp only [Option.bind_eq_bind, Option.bind_some]
      rw [consoleKeys, hkey₃]
      rfl

theorem goes_up {c : Console} {e : Editor} (h : Rel cap c.state e) (hnone : e.pending = []) (isArrow : Bool) :
    ∃ c', consoleKeys complete bufs (upKey isArrow) c = some c' ∧ Goes cap c c' (e.showLine e.past.prev) :=
  goes_arrow hcap hword complete bufs h hnone (show arrow 65 = some (ctlCh 'p') from rfl) (by decide) rfl isArrow

theorem goes_down {c : Console} {e : Editor} (h : Rel cap c.state e) (hnone : e.pending = []) (isArrow : Bool) :
    ∃ c', consoleKeys complete bufs (downKey isArrow) c = some c' ∧ Goes cap c c' (e.showLine (e.past.next [])) :=
  goes_arrow hcap hword complete bufs h hnone (show arrow 66 = some (ctlCh 'n') from rfl) (by decide) rfl isArrow

theorem goes_ups (text : List UInt8) (ups : List Bool) : ∀ (c : Console) (e : Editor), Rel cap c.state e → AtPlace text e →
    ∃ c' e', consoleKeys complete bufs (ups.flatMap upKey) c = some c' ∧ Goes cap c c' e' ∧ AtPlace text e' ∧
      e'.past.lines = e.past.lines ∧ e'.past.back = min (e.past.back + ups.length) e.past.lines.length := by
  induction ups with
  | nil =>
      intro c e h hat
      have := e.past.back_le
      exact ⟨c, e, rfl, ⟨h, rfl, rfl⟩, hat, rfl, by rw [List.length_nil]; omega⟩
  | cons up ups ih =>
      intro c e h hat
      obtain ⟨c₁, hkeys₁, hgoes₁⟩ := goes_up hcap hword complete bufs h hat.1 up
      obtain ⟨hlines, hback⟩ := showLine_prev e
      obtain ⟨c₂, e₂, hkeys₂, hgoes₂, hat₂, hlines₂, hback₂⟩ := ih c₁ _ hgoes₁.state hat.up
      refine ⟨c₂, e₂, ?_, ⟨hgoes₂.state, hgoes₂.calls.trans hgoes₁.calls, hgoes₂.answers.trans hgoes₁.answers⟩, hat₂,
        hlines₂.trans hlines, ?_⟩
      · rw [List.flatMap_cons, consoleKeys_append, hkeys₁]
        exact hkeys₂
      · rw [hback₂, hlines, hback, hop, List.length_cons]
        omega

/-! ## The start of a call -/

theorem Kept.recalls {bufs : Nat → Buf cap} {keys : List UInt8} {c : Console} {e : Editor} (h : Kept bufs keys c e)
    (hend : Ended keys) (hback : e.past.back = 0) : Recalls complete bufs c := by
  obtain ⟨hcursor, hnone⟩ := h.start hend
  have hat : AtPlace (bufs c.calls).text e := by
    refine ⟨hnone, ?_⟩
    rw [hcursor, hback, behindUps_zero]
    exact Cursor.text_ofText
  intro ups
  obtain ⟨c', e', hkeys, hgoes, hat', hlines, hplace⟩ := goes_ups hcap hword complete bufs _ ups c e h.state hat
  rw [hback, Nat.zero_add] at hplace
  refine ⟨c', hkeys, ?_, fun hpos hle isArrow => ?_⟩
  · have hshown := hgoes.state.shows
    rwa [hat'.2, hlines, hplace, h.lines, behindUps_min] at hshown
  · rw [← h.lines] at hle
    rw [Nat.min_eq_left hle] at hplace
    obtain ⟨c'', hkey, hgoes'⟩ := goes_down hcap hword complete bufs hgoes.state hat'.1 isArrow
    refine ⟨c'', hkey, ?_⟩
    obtain ⟨hlines', hback'⟩ := showLine_next e'
    have hshown := hgoes'.state.shows
    rwa [(hat'.down (by omega)).2, hlines', hback', hlines, hplace, h.lines] at hshown

theorem Kept.back_of_recalls {bufs : Nat → Buf cap} {keys : List UInt8} {c : Console} {e : Editor} (h : Kept bufs keys c e)
    (hend : Ended keys) (hempty : (bufs c.calls).text = []) (hrecalls : Recalls complete bufs c) : e.past.back = 0 := by
  obtain ⟨hcursor, hnone⟩ := h.start hend
  by_contra hback
  have hle := e.past.back_le
  have hlines := recallable_ne_nil c
  rw [← h.lines] at hlines
  obtain ⟨c₁, hkeys, hshows, hdown⟩ := hrecalls [false]
  obtain ⟨c₁', hkeys', hgoes⟩ := goes_up hcap hword complete bufs h.state hnone false
  obtain rfl : c₁ = c₁' := Option.some.inj (hkeys.symm.trans hkeys')
  have hshown := hgoes.state.shows
  by_cases hlt : e.past.back < e.past.lines.length
  · obtain ⟨c₂, hkey, hshows₂⟩ := hdown Nat.zero_lt_one (by rw [← h.lines]; exact Nat.zero_lt_of_lt hlt) false
    have hat := atPlace_up hnone hlt []
    obtain ⟨c₂', hkey', hgoes'⟩ := goes_down hcap hword complete bufs hgoes.state hat.1 false
    obtain rfl : c₂ = c₂' := Option.some.inj (hkey.symm.trans hkey')
    obtain ⟨hsame, hone⟩ := showLine_prev e
    obtain ⟨hsame', htwo⟩ := showLine_next (e.showLine e.past.prev)
    have hshown₂ := hgoes'.state.shows
    dsimp only [hop] at hone htwo
    have hpos : 0 < (e.showLine e.past.prev).past.back := by omega
    rw [(hat.down hpos).2, hsame', hsame, htwo, hone, Shows] at hshown₂
    exact behindUps_ne_nil hlines (by omega) [] (by omega) (hshown₂.symm.trans (hshows₂.trans (behindUps_zero _ _)))
  · rw [showLine_last hlt, hcursor, Cursor.text_ofText, hempty, Shows] at hshown
    rw [Shows, ← h.lines] at hshows
    exact behindUps_ne_nil hlines (by omega) _ Nat.zero_lt_one (hshows.symm.trans hshown)

end

section
variable (hcap : 0 < cap) (hword : cap < 2 ^ 32) {complete : List UInt8 → Nat → Option (List UInt8 × Nat)}
  (hcomplete : Completes cap complete) (bufs : Nat → Buf cap) (keys : List UInt8) (hend : Ended keys)
include hcap hword hcomplete hend

/-- Lines are recalled in order if the keys of the call are back at the newest line, and only then. -/
theorem history_recalls : ∃ c, consoleRun complete bufs keys = some c ∧
    (place (recallable c).length keys = 0 → Recalls complete bufs c) ∧
    ((bufs c.calls).text = [] → Recalls complete bufs c → place (recallable c).length keys = 0) := by
  obtain ⟨c, e, hrun, hkept⟩ := @consoleRun_kept cap hcap hword complete hcomplete bufs keys
  have hplace : e.past.back = place (recallable c).length keys := by
    rw [← hkept.lines]
    exact congrArg Prod.snd hkept.walk
  refine ⟨c, hrun, fun hzero => ?_, fun hempty hrecalls => ?_⟩
  · exact hkept.recalls hcap hword complete hend (hplace.trans hzero)
  · exact hplace ▸ hkept.back_of_recalls hcap hword complete hend hempty hrecalls

end

/-- `a`, Enter, `b`, Enter, up, down, `^C` -/
theorem history_recalls_sample : ∃ c, consoleRun (fun _ _ => none) (fun _ => emptyBuf 8) [97, 10, 98, 10, 16, 14, 3] = some c ∧
    Recalls (fun _ _ => none) (fun _ => emptyBuf 8) c := by
  have hplace : ∀ m, place m [97, 10, 98, 10, 16, 14, 3] = 0 := by
    intro m
    change min 1 m - 1 = 0
    omega
  obtain ⟨c, hrun, hrecalls, -⟩ := @history_recalls 8 (by decide) (by decide) (fun _ _ => none) (fun _ _ _ _ h => by cases h)
    (fun _ => emptyBuf 8) [97, 10, 98, 10, 16, 14, 3] ((ended_snoc [97, 10, 98, 10, 16, 14] 3).mpr (by decide))
  exact ⟨c, hrun, hrecalls (hplace _)⟩

/-- `a`, Enter, `b`, Enter, up, `^C`: the next up key shows `a`. -/
theorem history_skips_line :
    ¬ ∀ (complete : List UInt8 → Nat → Option (List UInt8 × Nat)) (bufs : Nat → Buf 8) (keys : List UInt8),
      Completes 8 complete → Ended keys → ∃ c, consoleRun complete bufs keys = some c ∧ Recalls complete bufs c := by
  intro h
  have hcomplete : Completes 8 fun _ _ => none := fun _ _ _ _ h => by cases h
  have hend : Ended [97, 10, 98, 10, 16, 3] := (ended_snoc [97, 10, 98, 10, 16] 3).mpr (by decide)
  obtain ⟨c, hrun, hrecalls⟩ := h (fun _ _ => none) (fun _ => emptyBuf 8) [97, 10, 98, 10, 16, 3] hcomplete hend
  obtain ⟨c', e, hrun', hkept⟩ := @consoleRun_kept 8 (by decide) (by decide) _ hcomplete (fun _ => emptyBuf 8)
    [97, 10, 98, 10, 16, 3]
  obtain rfl : c = c' := Option.some.inj (hrun.symm.trans hrun')
  have hback := hkept.back_of_recalls (by decide) (by decide) _ hend rfl hrecalls
  have hlines : (recallable c).length = 2 := by
    have hlen : (consoleRun (fun _ _ => none) (fun _ => emptyBuf 8) [97, 10, 98, 10, 16, 3]).map
        (fun c => (recallable c).length) = some 2 := rfl
    rw [hrun] at hlen
    exact Option.some.inj hlen
  have hplace : e.past.back = place (recallable c).length [97, 10, 98, 10, 16, 3] := by
    rw [← hkept.lines]
    exact congrArg Prod.snd hkept.walk
  rw [hback, hlines] at hplace
  exact absurd hplace (by decide)

end Uboot.Cli
