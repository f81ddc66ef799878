import Uboot.Lib.Strings

/-!
# The command line editor (`common/main.c`)

`cread_line` with its history, key by key. Counters are `unsigned long`s of 32 bits. A write outside of a buffer has no
result.
-/

namespace Uboot.Cli

open Lib

/-! ## Memory and console -/

def ulongSub (a b : Nat) : Nat := (a + 2 ^ 32 - b) % 2 ^ 32

def store (buf : List UInt8) (i : Nat) (c : UInt8) : Option (List UInt8) :=
  if i < buf.length then some (buf.set i c) else none

def memmove (buf : List UInt8) (dst src n : Nat) : Option (List UInt8) :=
  if dst + n ≤ buf.length ∧ src + n ≤ buf.length then some (buf.take dst ++ (buf.drop src).take n ++ buf.drop (dst + n))
  else none

/-- `strcpy` from a C string -/
def strcpy (buf s : List UInt8) : Option (List UInt8) :=
  if s.length < buf.length then some (s ++ 0 :: buf.drop (s.length + 1)) else none

/-- `CTL_BACKSPACE` -/
def ctlBackspace : UInt8 := 8

/-- What `getcmd_cbeep` puts out -/
def bell : UInt8 := 7

/-- `putnstr(buf + i, n)`, which ends at a NUL -/
def putnstr (buf : List UInt8) (i n : Nat) : List UInt8 := cstr ((buf.drop i).take n)

/-! ## The line -/

/-- The buffer, the two counters, and all that was put out. -/
structure Line where
  buf : List UInt8
  num : Nat
  eolNum : Nat
  out : List UInt8

def Line.put (l : Line) (bs : List UInt8) : Line := { l with out := l.out ++ bs }

def beginningOfLineLoop : Nat → Line → Line
  | 0, l => l
  | num + 1, l => beginningOfLineLoop num { l.put [ctlBackspace] with num := num }

/-- `BEGINNING_OF_LINE` -/
def beginningOfLine (l : Line) : Line := beginningOfLineLoop l.num l

/-- `do … while (--eol_num > num)`; `eol_num` is not 0 at its start. -/
def eraseLoop : Nat → Line → Line
  | 0, l => l
  | eolNum + 1, l =>
    let l := { l.put [ctlBackspace] with eolNum := eolNum }
    if l.num < eolNum then eraseLoop eolNum l else l

/-- `ERASE_TO_EOL` -/
def eraseToEol (l : Line) : Line :=
  if l.num < l.eolNum then eraseLoop l.eolNum (l.put (.replicate (ulongSub l.eolNum l.num) 32)) else l

/-- `REFRESH_TO_EOL` -/
def refreshToEol (l : Line) : Line :=
  if l.num < l.eolNum then
    let wlen := ulongSub l.eolNum l.num
    { l.put (putnstr l.buf l.num wlen) with num := l.eolNum }
  else l

def creadAddChar (ichar : UInt8) (insert : Bool) (len : Nat) (l : Line) : Option Line :=
  let grows := insert = true ∨ l.num = l.eolNum
  if grows ∧ ulongSub len 1 < l.eolNum then some (l.put [bell])
  else
    let eolNum := if grows then l.eolNum + 1 else l.eolNum
    if insert then do
      let wlen := ulongSub eolNum l.num
      let buf ← (if 1 < wlen then memmove l.buf (l.num + 1) l.num (wlen - 1) else some l.buf)
      let buf ← store buf l.num ichar
      some ⟨buf, l.num + 1, eolNum, l.out ++ putnstr buf l.num wlen ++ .replicate (ulongSub wlen 1) ctlBackspace⟩
    else do
      let buf ← store l.buf l.num ichar
      some ⟨buf, l.num + 1, eolNum, l.out ++ putnstr buf l.num 1⟩

/-- `cread_add_str` from the `i`-th byte of the string on, which may be in the buffer itself. -/
def creadAddStr (str : List UInt8 → Nat → UInt8) (insert : Bool) (len : Nat) : Nat → Nat → Line → Option Line
  | 0, _, l => some l
  | strsize + 1, i, l => do
    let l ← creadAddChar (str l.buf i) insert len l
    creadAddStr str insert len strsize (i + 1) l

/-- `^F` -/
def forward (l : Line) : Line :=
  if l.num < l.eolNum then { l.put [l.buf.getD l.num 0] with num := l.num + 1 } else l

/-- `^B` -/
def backward (l : Line) : Line :=
  if l.num ≠ 0 then { l.put [ctlBackspace] with num := l.num - 1 } else l

/-- `^D` -/
def deleteChar (l : Line) : Option Line :=
  if l.num < l.eolNum then do
    let wlen := ulongSub (ulongSub l.eolNum l.num) 1
    let buf ← (if wlen ≠ 0 then memmove l.buf l.num (l.num + 1) wlen else some l.buf)
    let shown := if wlen ≠ 0 then putnstr buf l.num wlen else []
    some ⟨buf, l.num, l.eolNum - 1, l.out ++ shown ++ 32 :: .replicate (wlen + 1) ctlBackspace⟩
  else some l

/-- `DEL`, `DEL7` and 8 -/
def backspace (l : Line) : Option Line :=
  if l.num ≠ 0 then do
    let wlen := ulongSub l.eolNum l.num
    let num := l.num - 1
    let buf ← memmove l.buf num (num + 1) wlen
    some ⟨buf, num, ulongSub l.eolNum 1,
      l.out ++ ctlBackspace :: putnstr buf num wlen ++ 32 :: .replicate (wlen + 1) ctlBackspace⟩
  else some l

/-! ## History -/

/-- `HIST_MAX` -/
def histMaxLines : Nat := 20

/-- The lines are C strings. -/
structure Hist where
  histMax : Nat
  histAddIdx : Nat
  histCur : Int
  histList : List (List UInt8)

def histInit : Hist := ⟨0, 0, -1, .replicate histMaxLines []⟩

/-- `cread_add_to_hist`; a slot has room for `histSize` bytes and a NUL. -/
def creadAddToHist (histSize : Nat) (line : List UInt8) (h : Hist) : Option Hist :=
  if h.histAddIdx < h.histList.length ∧ (cstr line).length ≤ histSize then
    let idx := if histMaxLines ≤ h.histAddIdx + 1 then 0 else h.histAddIdx + 1
    some { h with
      histList := h.histList.set h.histAddIdx (cstr line)
      histAddIdx := idx
      histMax := if h.histMax < idx then idx else h.histMax }
  else none

def histPrev (h : Hist) : Option (List UInt8) × Hist :=
  if h.histCur < 0 then (none, h)
  else
    let cur := if h.histCur - 1 < 0 then (h.histMax : Int) else h.histCur - 1
    if cur = h.histAddIdx then (none, h) else (some (h.histList.getD cur.toNat []), { h with histCur := cur })

def histNext (h : Hist) : Option (List UInt8) × Hist :=
  if h.histCur < 0 then (none, h)
  else if h.histCur = h.histAddIdx then (none, h)
  else
    let cur := if (h.histMax : Int) < h.histCur + 1 then 0 else h.histCur + 1
    if cur = h.histAddIdx then (some [], { h with histCur := cur })
    else (some (h.histList.getD cur.toNat []), { h with histCur := cur })

/-! ## Keys -/

/-- `CTL_CH` -/
def ctlCh (c : Char) : UInt8 := .ofNat (c.toNat - 97 + 1)

/-- The cases of the switch in `cread_line`. -/
inductive Key where
  | esc
  | home
  | interrupt
  | forward
  | backward
  | delete
  | kill
  | toEnd
  | toggle
  | clear
  | backspace
  | prev
  | next
  | tab
  | char
  deriving DecidableEq

def Key.of (ichar : UInt8) : Key :=
  if ichar = 0x1b then .esc
  else if ichar = ctlCh 'a' then .home
  else if ichar = ctlCh 'c' then .interrupt
  else if ichar = ctlCh 'f' then .forward
  else if ichar = ctlCh 'b' then .backward
  else if ichar = ctlCh 'd' then .delete
  else if ichar = ctlCh 'k' then .kill
  else if ichar = ctlCh 'e' then .toEnd
  else if ichar = ctlCh 'o' then .toggle
  else if ichar = ctlCh 'x' ∨ ichar = ctlCh 'u' then .clear
  else if ichar = 255 ∨ ichar = 127 ∨ ichar = 8 then .backspace
  else if ichar = ctlCh 'p' then .prev
  else if ichar = ctlCh 'n' then .next
  else if ichar = 9 then .tab
  else .char

/-- The key that an escape sequence stands for, by its last byte. -/
def arrow (ichar : UInt8) : Option UInt8 :=
  if ichar = 68 then some (ctlCh 'b')
  else if ichar = 67 then some (ctlCh 'f')
  else if ichar = 72 then some (ctlCh 'a')
  else if ichar = 65 then some (ctlCh 'p')
  else if ichar = 66 then some (ctlCh 'n')
  else none

/-- The variables of `cread_line`, with the history. -/
structure State where
  line : Line
  insert : Bool
  escLen : Nat
  escSave : List UInt8
  hist : Hist

/-- The loop goes on, or `cread_line` returns, with a length in `*len`. -/
inductive Next where
  | more (s : State)
  | done (ret : Int) (len : Nat) (s : State)

/-- Recall of a line, or a beep. -/
def recallLine (hline : Option (List UInt8)) (s : State) : Option Next :=
  match hline with
  | none => some (.more { s with line := s.line.put [bell] })
  | some hline => do
    let l := eraseToEol (beginningOfLine s.line)
    let buf ← strcpy l.buf hline
    some (.more { s with line := refreshToEol { l with buf := buf, eolNum := (cstr buf).length } })

section
variable (complete : List UInt8 → Nat → Option (List UInt8 × Nat)) (len : Nat)

/-- TAB. `complete` is `cmd_auto_complete`: it may change the buffer and the number of characters. -/
def tab (l : Line) : Option Line :=
  if l.num < l.eolNum then some (l.put [bell])
  else do
    let buf ← store l.buf l.num 0
    some (match complete buf l.num with
      | some (buf, num2) => { l with buf := buf, num := num2, eolNum := l.eolNum + num2 - l.num }
      | none => { l with buf := buf })

/-- The switch on a key. -/
def keySwitch (ichar : UInt8) (s : State) : Option Next :=
  let edit (l : Option Line) : Option Next := l.map fun l => .more { s with line := l }
  match Key.of ichar with
  | .esc =>
    some (.more (if s.escLen = 0 then { s with escSave := s.escSave.set 0 ichar, escLen := 1 }
      else { s with line := s.line.put (ascii "impossible condition #876\n"), escLen := 0 }))
  | .home => edit (some (beginningOfLine s.line))
  | .interrupt => (store s.line.buf 0 0).map fun buf => .done (-1) len { s with line := { s.line with buf := buf } }
  | .forward => edit (some (forward s.line))
  | .backward => edit (some (backward s.line))
  | .delete => edit (deleteChar s.line)
  | .kill => edit (some (eraseToEol s.line))
  | .toEnd => edit (some (refreshToEol s.line))
  | .toggle => some (.more { s with insert := !s.insert })
  | .clear => edit (some (eraseToEol (beginningOfLine s.line)))
  | .backspace => edit (backspace s.line)
  | .prev => let r := histPrev s.hist; recallLine r.1 { s with escLen := 0, hist := r.2 }
  | .next => let r := histNext s.hist; recallLine r.1 { s with escLen := 0, hist := r.2 }
  | .tab => edit (tab complete s.line)
  | .char => edit (creadAddChar ichar s.insert len s.line)

/-- The end of `cread_line` behind Enter. -/
def creadLineEnd (s : State) : Option Next := do
  let buf ← store s.line.buf s.line.eolNum 0
  let hist ← (if buf.headD 0 ≠ 0 ∧ buf.headD 0 ≠ 33 then creadAddToHist len buf s.hist else some s.hist)
  some (.done 0 s.line.eolNum { s with
    line := { s.line.put [10] with buf := buf }
    hist := { hist with histCur := hist.histAddIdx } })

/-- `cread_add_str` from `esc_save` -/
def addEscape (s : State) : Option Next := do
  let l ← creadAddStr (fun _ i => s.escSave.getD i 0) s.insert len s.escLen 0 s.line
  some (.more { s with line := l, escLen := 0 })

/-- The loop of `cread_line` for one key. -/
def creadKey (ichar : UInt8) (s : State) : Option Next :=
  if ichar = 10 ∨ ichar = 13 then creadLineEnd len s
  else if s.escLen = 0 then keySwitch complete len ichar s
  else if s.escLen = 1 then
    if ichar = 91 then some (.more { s with escSave := s.escSave.set s.escLen ichar, escLen := 2 })
    else addEscape len s
  else
    match arrow ichar with
    | some c => keySwitch complete len c { s with escLen := 0 }
    | none => addEscape len { s with escSave := s.escSave.set s.escLen ichar, escLen := s.escLen + 1 }

/-- `cread_line` up to its loop. `esc_save` is not read before it is written. -/
def creadLineStart (buf : List UInt8) (hist : Hist) : Option State := do
  let initLen := (cstr buf).length
  let l ← (if initLen ≠ 0 then creadAddStr (fun buf i => buf.getD i 0) true len initLen 0 ⟨buf, 0, 0, []⟩
    else some ⟨buf, 0, 0, []⟩)
  some ⟨l, true, 0, .replicate 8 0, hist⟩

end

/-! ## Calls one after the other -/

/-- A buffer for lines of up to `cap` bytes, with a text in it. -/
structure Buf (cap : Nat) where
  bytes : List UInt8
  length_eq : bytes.length = cap + 1
  ends : 0 ∈ bytes

def Buf.text {cap : Nat} (b : Buf cap) : List UInt8 := cstr b.bytes

/-- The call that runs, and what the earlier ones returned: the result, `*len` and the buffer. -/
structure Console where
  state : State
  calls : Nat
  answers : List (Int × Nat × List UInt8)

section
variable {cap : Nat} (complete : List UInt8 → Nat → Option (List UInt8 × Nat)) (bufs : Nat → Buf cap)

/-- `CONFIG_SYS_CBSIZE` is the length of the lines and of the history's; `bufs` are the buffers of the calls. -/
def consoleStart : Option Console := do
  let s ← creadLineStart cap (bufs 0).bytes histInit
  some ⟨s, 0, []⟩

def consoleKey (ichar : UInt8) (c : Console) : Option Console := do
  match ← creadKey complete cap ichar c.state with
  | .more s => some { c with state := s }
  | .done ret len s =>
    let s' ← creadLineStart cap (bufs (c.calls + 1)).bytes s.hist
    some ⟨s', c.calls + 1, c.answers ++ [(ret, len, s.line.buf)]⟩

def consoleKeys : List UInt8 → Console → Option Console
  | [], c => some c
  | k :: ks, c => do consoleKeys ks (← consoleKey complete bufs k c)

end

end Uboot.Cli
