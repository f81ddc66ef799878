import Uboot.Macrw.Write
import Uboot.Vsprintf.Basic

/-!
# Answers of the web handlers

`web_macrw_handle` (`board/qcom/ipq40xx_cdp/macrw.c`) and `web_setenv_handle` (`setenv_web.c`) put their answers together
with `snprintf` and return a length, of which `httpd_appcall` sends as many bytes of its buffer.
-/

namespace Uboot.WebHandlers

open Lib Vsprintf Macrw

/-! ## The buffer -/

/-- `resp_buf`, with the bytes that were stored, and `len` -/
structure Response where
  buf : Nat → Option UInt8
  len : Nat

/-- An array of the stack of `httpd_appcall` -/
def Response.init : Response := ⟨fun _ => none, 0⟩

/-- Bytes are stored from `a` on. -/
def store (buf : Nat → Option UInt8) (a : Nat) (bs : List UInt8) : Nat → Option UInt8 :=
  fun i => if a ≤ i ∧ i < a + bs.length then some (bs.getD (i - a) 0) else buf i

/-- `len += snprintf(resp_buf + len, bufsize - len, …)` -/
def Response.print (bufsize : Nat) (r : Response) (text : List UInt8) : Response :=
  ⟨store r.buf r.len (snprintf (bufsize - r.len) text), r.len + text.length⟩

/-- `resp_buf[len] = '\0'` -/
def Response.terminate (r : Response) : Response := { r with buf := store r.buf r.len [0] }

/-- The bytes that `httpd_appcall` sends at once, of `hs->upload` that it is going to send. -/
def Response.send (r : Response) (mss : Nat) : List (Option UInt8) := (List.range (min r.len mss)).map r.buf

/-- The lines that both handlers begin with. -/
def header : List UInt8 :=
  ascii "HTTP/1.1 200 OK\r\n" ++ ascii "Content-Type: text/plain\r\n" ++ ascii "Connection: close\r\n\r\n"

/-! ## MAC addresses -/

section
variable {S : Type} (drv : ArtFlash S) (probe : Bool)

/-- `flash_read_mac_to_buf`; `probe` tells whether `sf probe` succeeds, or did before. -/
def flashReadMacToBuf (iface : List UInt8) (s : State S) : Option (List UInt8) × State S :=
  if probe then
    let r := readFlashArt drv s
    (if r.1 then flashReadMac iface r.2.mem else none, r.2)
  else (none, s)

/-- The text behind the header in `web_macrw_handle`. -/
def macrwMessage (argv : List (List UInt8)) (s : State S) : List UInt8 × State S :=
  match argument (ascii "action=") argv, argument (ascii "iface=") argv with
  | some action, some iface =>
      if action = ascii "write" then
        match argument (ascii "mac=") argv with
        | none => (ascii "Error: mac is required\n", s)
        | some mac =>
            if probe then
              let w := flashWriteMac drv iface mac s
              if w.1 then (ascii "Write success: " ++ iface ++ ascii " = " ++ mac ++ [10], w.2)
              else (ascii "Write failed: " ++ iface ++ [10], w.2)
            else (ascii "Error: SPI flash not initialized. Please initialize first.\n", s)
      else if action = ascii "read" then
        let r := flashReadMacToBuf drv probe iface s
        match r.1 with
        | some macAddr => (ascii "Read success: " ++ iface ++ ascii " = " ++ macAddr ++ [10], r.2)
        | none => (ascii "Read failed: " ++ iface ++ [10], r.2)
      else (ascii "Unknown action: " ++ action ++ [10], s)
  | _, _ => (ascii "Error: action and iface are required\n", s)

/-- `web_macrw_handle` -/
def webMacrwHandle (argv : List (List UInt8)) (bufsize : Nat) (s : State S) : Response × State S :=
  let message := macrwMessage drv probe argv s
  ((Response.init.print bufsize header).print bufsize message.1, message.2)

end

/-! ## Variables -/

/-- A hexadecimal digit, as `urldecode` takes it. -/
def hexValue (a : UInt8) : UInt8 :=
  let a := if 97 ≤ a then a - 32 else a
  if 65 ≤ a then a - 55 else a - 48

/-- `urldecode`, without the terminator -/
def urldecode : List UInt8 → List UInt8
  | [] => []
  | 37 :: a :: b :: src =>
      if isxdigit a ∧ isxdigit b then (16 * hexValue a + hexValue b) :: urldecode src else 37 :: urldecode (a :: b :: src)
  | 43 :: src => 32 :: urldecode src
  | c :: src => c :: urldecode src

example : urldecode (ascii "a+b%3d%zz") = ascii "a b=%zz" := by decide

/-- The string in `var_dec` or `val_dec`, or none if it does not fit in the 4096 bytes there. -/
def decodeArg (arg : Option (List UInt8)) : Option (List UInt8) :=
  let dec := urldecode (arg.getD [])
  if dec.length < 4096 then some (dec.takeWhile (· ≠ 0)) else none

/-- The environment: the strings at `env_get_addr(0)` and the variables of the hash table, and whether the calls for
memory, for changes and for saving succeed. -/
structure Environment where
  strings : List (List UInt8)
  getenv : List UInt8 → Option (List UInt8)
  malloc : Bool
  setenv : List UInt8 → Option (List UInt8) → Bool
  saveenv : Bool

/-- `env_get_items`, but for the entries without a value, which are not printed -/
def envGetItems (env : Environment) : List (List UInt8 × List UInt8) :=
  if env.malloc then
    (env.strings.filter (·.contains 61)).filterMap fun s =>
      let name := s.takeWhile (· ≠ 61)
      (env.getenv name).map fun value => (name, value)
  else []

/-- `%s=%s<br>` -/
def itemText (item : List UInt8 × List UInt8) : List UInt8 := item.1 ++ 61 :: item.2 ++ ascii "<br>"

/-- The loop over the entries, with `truncated` -/
def listLoop (bufsize : Nat) : List (List UInt8 × List UInt8) → Response → Response × Bool
  | [], r => (r, false)
  | item :: items, r =>
      let n := item.1.length + item.2.length + 3
      if bufsize ≤ r.len + n then (r, true) else listLoop bufsize items (r.print bufsize (itemText item))

/-- All variables -/
def listVars (env : Environment) (bufsize : Nat) (r : Response) : Response :=
  let l := listLoop bufsize (envGetItems env) r
  if l.2 then l.1.print bufsize (ascii "[...output truncated...]<br>") else l.1

/-- The text behind the header for one variable -/
def varMessage (env : Environment) (var : List UInt8) (val : Option (List UInt8)) (valDec : List UInt8) : List UInt8 :=
  if var = ascii "default" then
    if env.saveenv then ascii "Success: Environment restored to default\n"
    else ascii "Error: Failed to restore default environment\n"
  else if val = none then
    match env.getenv var with
    | some envVal => ascii "Value: " ++ var ++ 61 :: envVal ++ [10]
    | none => ascii "Error: variable not found\n"
  else if valDec = [] then
    if env.setenv var none && env.saveenv then ascii "Success: " ++ var ++ ascii " unset\n"
    else ascii "Error: unsetenv failed\n"
  else if env.setenv var (some valDec) && env.saveenv then ascii "Success: " ++ var ++ 61 :: valDec ++ [10]
  else ascii "Error: setenv failed\n"

/-- `web_setenv_handle`; none when an argument overruns `var_dec` or `val_dec`. -/
def webSetenvHandle (env : Environment) (argv : List (List UInt8)) (bufsize : Nat) : Option Response := do
  let varDec ← decodeArg (argument (ascii "var=") argv)
  let val := argument (ascii "val=") argv
  let valDec ← decodeArg val
  let r := Response.init.print bufsize header
  if varDec = [] ∨ varDec = ascii "all" then some (listVars env bufsize r).terminate
  else some (r.print bufsize (varMessage env varDec val valDec)).terminate

end Uboot.WebHandlers
