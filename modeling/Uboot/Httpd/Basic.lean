import Uboot.Lib.Bytes
import Uboot.Lib.Strings
import Uboot.Macrw.Basic

/-!
# The HTTP server of the recovery mode (`httpd/httpd.c`)

`httpd_appcall` is called by uIP for every event of a connection. Each connection has its own `httpd_state`; the rest
is global. `int` and `unsigned int` have 32 bits. What is printed, the LEDs and the contents of the pages are left out.
None of `WEBFAILSAFE_DISABLE_*` is set.
-/

namespace Uboot.Httpd

open Uboot.Lib

abbrev wordSize : Nat := 2 ^ 32

/-- `WEBFAILSAFE_UPLOAD_RAM_ADDRESS` -/
def uploadRamAddress : Nat := 0x88000000

/-- `WEBFAILSAFE_UPLOAD_UBOOT_SIZE_IN_BYTES` -/
def uploadUbootSize : Nat := 512 * 1024

/-- `WEBFAILSAFE_UPLOAD_ART_SIZE_IN_BYTES` -/
def uploadArtSize : Nat := 64 * 1024

/-- `WEBFAILSAFE_UPLOAD_MIBIB_SIZE_IN_BYTES` -/
def uploadMibibSize : Nat := 128 * 1024

/-- `WEBFAILSAFE_UPGRADE_TYPE_*` -/
inductive UpgradeType where
  | firmware
  | uboot
  | art
  | qsdkFirmware
  | mibib
deriving DecidableEq, Repr

/-- `STATE_NONE`, `STATE_FILE_REQUEST` and `STATE_UPLOAD_REQUEST` -/
inductive ConnState where
  | none
  | fileRequest
  | uploadRequest
deriving DecidableEq, Repr

/-- `httpd_state`; `dataptr` and `macrw_buf` only point to what is sent, and `macrw_len` is copied to `upload`. -/
structure HttpdState where
  state : ConnState
  count : Nat
  upload : Nat
  uploadTotal : Nat
  isMacrwResp : Bool
deriving DecidableEq, Repr

/-- The static variables, the globals that are used, and memory. -/
structure Globals where
  postDone : Bool
  uploadFailed : Bool
  dataStartFound : Bool
  boundaryValue : Option (List UInt8)
  dataPointer : Nat
  upgradeType : UpgradeType
  readyForUpgrade : Bool
  netBootFileXferSize : Nat
  mem : Mem

/-- The generated pages with their lengths, and the lengths of the answers of `web_macrw_handle` and
`web_setenv_handle`; the first one depends on the arguments and on what was read from flash. -/
structure Site where
  files : List (List UInt8 × Nat)
  indexHtml : Nat
  notFoundHtml : Nat
  flashingHtml : Nat
  failHtml : Nat
  macrw : List (List UInt8) → Option (List UInt8) → Nat
  setenv : List UInt8 → Nat

/-- `fs_open` -/
def Site.fsOpen (site : Site) (name : List UInt8) : Option Nat :=
  (site.files.find? fun f => f.1 = name).map (·.2)

/-- A call of `httpd_appcall`: the flags, the `uip_len` bytes at `uip_appdata`, what follows them in the buffer, the
fields of the connection that are read, whether `malloc` succeeds, and what a MAC command leaves in memory. -/
structure Event where
  closed : Bool := false
  aborted : Bool := false
  timedout : Bool := false
  poll : Bool := false
  connected : Bool := false
  newdata : Bool := false
  acked : Bool := false
  rexmit : Bool := false
  data : List UInt8 := []
  stale : List UInt8 := []
  mss : Nat := 1446
  len : Nat := 0
  mallocOk : Bool := true
  art : Option (List UInt8) := none

/-- What the call asks uIP to do. `crash` is a `memcpy` of a negative length or to a null pointer. -/
inductive Reply where
  | none
  | send (len : Nat)
  | close
  | abort
  | reset
  | crash
deriving DecidableEq, Repr

/-- The result of a call. -/
structure Result where
  hs : HttpdState
  g : Globals
  reply : Reply

/-! ## Strings -/

def eol : List UInt8 := ascii "\r\n"

def eol2 : List UInt8 := ascii "\r\n\r\n"

def contentLength : List UInt8 := ascii "Content-Length:"

def boundaryEq : List UInt8 := ascii "boundary="

def nameFirmware : List UInt8 := ascii "name=\"firmware\""

def nameUboot : List UInt8 := ascii "name=\"uboot\""

def nameArt : List UInt8 := ascii "name=\"art\""

def nameMibib : List UInt8 := ascii "name=\"mibib\""

def isDigit (c : UInt8) : Bool := 48 ≤ c ∧ c ≤ 57

/-- `atoi` -/
def atoi (s : List UInt8) : Nat :=
  (s.takeWhile isDigit).foldl (fun i c => (i * 10 + (c.toNat - 48)) % wordSize) 0

/-! ## State -/

/-- `httpd_state_reset` -/
def stateReset (hs : HttpdState) (g : Globals) : HttpdState × Globals :=
  ({ hs with state := .none, count := 0, upload := 0, uploadTotal := 0 },
    { g with dataStartFound := false, boundaryValue := none })

/-- `httpd_state_reset` and a reply. -/
def resetAnd (reply : Reply) (hs : HttpdState) (g : Globals) : Result :=
  ⟨(stateReset hs g).1, (stateReset hs g).2, reply⟩

/-- `uip_send` of the next part of a page. -/
def sendPage (ev : Event) (hs : HttpdState) (g : Globals) : Result := ⟨hs, g, .send (min hs.upload ev.mss)⟩

/-! ## Uploads -/

/-- The search for the field's name in `httpd_findandstore_firstchunk`. -/
def fieldType (s : List UInt8) : Option UpgradeType :=
  if (strstr s nameFirmware).isSome then some .firmware
  else if (strstr s nameUboot).isSome then some .uboot
  else if (strstr s nameArt).isSome then some .art
  else if (strstr s nameMibib).isSome then some .mibib
  else none

/-- The file has a wrong size for its type. -/
def sizeError (type : UpgradeType) (size : Nat) : Bool :=
  (type = .uboot ∧ uploadUbootSize < size) ∨ (type = .art ∧ size ≠ uploadArtSize) ∨
    (type = .mibib ∧ size ≠ uploadMibibSize)

/-- `uip_appdata` after `uip_appdata[uip_len] = '\0'`. -/
def Event.text (ev : Event) : List UInt8 := ev.data ++ 0 :: ev.stale.drop 1

/-- `httpd_findandstore_firstchunk`, with its result. -/
def findAndStoreFirstChunk (ev : Event) (hs : HttpdState) (g : Globals) : HttpdState × Globals × Bool :=
  match g.boundaryValue with
  | none => (hs, g, false)
  | some boundary =>
      match strstr ev.text boundary with
      | none => (hs, g, false)
      | some start =>
          match fieldType (ev.text.drop start) with
          | none => (hs, g, false)
          | some type =>
              let g := { g with upgradeType := type }
              match strstr (ev.text.drop start) eol2 with
              | none => (hs, g, false)
              | some n =>
                  if start + n < ev.data.length then
                    let total := (hs.uploadTotal + 3 * wordSize - (n + 4) - boundary.length - 6) % wordSize
                    let upload := ev.data.length - (start + n + 4)
                    ({ hs with uploadTotal := total, upload := upload },
                      { g with
                        uploadFailed := g.uploadFailed || sizeError type total
                        mem := g.mem.write g.dataPointer ((ev.text.drop (start + n + 4)).take upload)
                        dataPointer := g.dataPointer + upload }, true)
                  else (hs, g, false)

/-- The first segment of an upload. -/
def beginUpload (ev : Event) (hs : HttpdState) (g : Globals) : Result :=
  match strstr ev.text contentLength with
  | none => resetAnd .abort hs g
  | some start =>
      -- `sizeof` also counts the NUL, for the space after the colon
      let start := start + contentLength.length + 1
      match strstr (ev.text.drop start) eol with
      | none => resetAnd .abort hs g
      | some _ =>
          let hs := { hs with uploadTotal := atoi (ev.text.drop start) }
          if hs.uploadTotal < 10240 then resetAnd .abort hs g
          else
            match strstr ev.text boundaryEq with
            | none => resetAnd .abort hs g
            | some start =>
                let start := start + boundaryEq.length
                match strstr (ev.text.drop start) eol with
                | none => resetAnd .abort hs g
                | some n =>
                    if ev.mallocOk then
                      let g := { g with
                        boundaryValue := some (ascii "--" ++ (ev.text.drop start).take n)
                        dataPointer := uploadRamAddress }
                      let (hs, g, found) := findAndStoreFirstChunk ev hs g
                      ⟨hs, { g with dataStartFound := found }, .none⟩
                    else resetAnd .abort hs g

/-- A later segment of an upload. -/
def continueUpload (site : Site) (ev : Event) (hs : HttpdState) (g : Globals) : Result :=
  if g.dataStartFound then
    let hs := { hs with upload := (hs.upload + ev.data.length) % wordSize }
    let g := if g.uploadFailed then g else { g with
      mem := g.mem.write g.dataPointer ev.data
      dataPointer := g.dataPointer + ev.data.length }
    if (hs.uploadTotal + (g.boundaryValue.getD []).length + 6) % wordSize ≤ hs.upload then
      let g := { g with postDone := true, netBootFileXferSize := hs.uploadTotal }
      let page := if g.uploadFailed then site.failHtml else site.flashingHtml
      let (hs, g) := stateReset hs g
      sendPage ev { hs with state := .fileRequest, upload := page } g
    else ⟨hs, g, .none⟩
  else
    let (hs, g, found) := findAndStoreFirstChunk ev hs g
    if found then ⟨hs, { g with dataStartFound := true }, .none⟩
    else resetAnd .abort hs g

/-! ## Requests -/

/-- `uip_appdata` before it is closed by a NUL. -/
def Event.buf (ev : Event) : List UInt8 := ev.data ++ ev.stale

def isGet (buf : List UInt8) : Bool :=
  buf.take 3 = ascii "GET" ∧ (buf.getD 3 0 = 32 ∨ buf.getD 3 0 = 9)

def isPost (buf : List UInt8) : Bool :=
  buf.take 4 = ascii "POST" ∧ (buf.getD 4 0 = 32 ∨ buf.getD 4 0 = 9)

/-- The answer of a command is sent. -/
def macrwResponse (ev : Event) (len : Nat) (hs : HttpdState) (g : Globals) : Result :=
  sendPage ev { hs with isMacrwResp := true, upload := len % 65536 } g

/-- `web_macrw_handle` with the arguments in `query`: the length of the answer, and memory. -/
def macrwHandle (site : Site) (ev : Event) (query : List UInt8) (g : Globals) : Nat × Globals :=
  let argv := Macrw.parseUrlArgs query
  (site.macrw argv ev.art, { g with mem := Macrw.loadArt argv ev.art g.mem })

/-- The body of a command, when the header ends in the buffer at `n`. -/
def Event.body (ev : Event) (n : Nat) : List UInt8 :=
  cstr ((ev.buf.drop (n + eol2.length)).take (ev.data.length - (n + eol2.length)))

/-- The arguments after the `?`. -/
def Event.query (ev : Event) : List UInt8 := ((cstr (ev.buf.drop 4)).dropWhile (· ≠ 63)).drop 1

/-- `POST /macrw` and `POST /setenv`, when the header ends in the buffer at `n`. -/
def postCommand (ev : Event) (handle : List UInt8 → Globals → Nat × Globals) (n : Nat) (hs : HttpdState)
    (g : Globals) : Result :=
  if ev.data.length < n + eol2.length ∨ ev.mallocOk = false then ⟨hs, g, .crash⟩
  else
    let (len, g) := handle (ev.body n) g
    macrwResponse ev len hs g

/-- The request for a page, with the delimiter of its name. -/
def fileRequest (site : Site) (ev : Event) (hs : HttpdState) (g : Globals) : Result :=
  let isDelimiter : UInt8 → Bool := fun c => c = 32 ∨ c = 13 ∨ c = 10 ∨ c = 9
  match (List.range' 4 26).find? fun i => isDelimiter (ev.buf.getD i 0) with
  | none => resetAnd .abort hs g
  | some i =>
      let buf := ev.buf.set i 0
      let len :=
        if (buf.getD 4 0 = 47 ∧ buf.getD 5 0 = 0) ∨
            ((ascii "/cgi-bin/luci").isPrefixOf (buf.drop 4) ∧
              (buf.getD 17 0 = 0 ∨ buf.getD 17 0 = 32 ∨ buf.getD 17 0 = 13 ∨ buf.getD 17 0 = 10)) then
          site.indexHtml
        else (site.fsOpen (cstr (buf.drop 4))).getD site.notFoundHtml
      sendPage ev { hs with upload := len } g

/-- `GET /macrw` -/
def getMacrw (site : Site) (ev : Event) (hs : HttpdState) (g : Globals) : Result :=
  let (len, g) := macrwHandle site ev ev.query g
  macrwResponse ev len hs g

/-- The first segment of a request. -/
def newRequest (site : Site) (ev : Event) (hs : HttpdState) (g : Globals) : Result :=
  if isGet ev.buf then
    let hs := { hs with state := .fileRequest }
    if (ascii "/macrw").isPrefixOf (ev.buf.drop 4) then getMacrw site ev hs g else fileRequest site ev hs g
  else if isPost ev.buf then
    let hs := { hs with state := .uploadRequest }
    if (ascii "POST /macrw").isPrefixOf ev.buf then
      match strstr ev.buf eol2 with
      | some n => postCommand ev (macrwHandle site ev) n hs g
      | none => beginUpload ev hs g
    else if (ascii "POST /setenv").isPrefixOf ev.buf then
      match strstr ev.buf eol2 with
      | some n => postCommand ev (fun query g => (site.setenv query, g)) n hs g
      | none => beginUpload ev hs g
    else if (ascii "POST /reset").isPrefixOf ev.buf then ⟨hs, g, .reset⟩
    else beginUpload ev hs g
  else resetAnd .abort hs g

/-- Data that was sent is acknowledged. -/
def handleAcked (ev : Event) (hs : HttpdState) (g : Globals) : Result :=
  let next := { hs with upload := (hs.upload + wordSize - ev.len) % wordSize }
  if hs.isMacrwResp then
    if hs.upload ≤ ev.mss then
      let r := resetAnd .close hs g
      { r with hs := { r.hs with isMacrwResp := false } }
    else sendPage ev next g
  else if hs.state = .fileRequest then
    if hs.upload ≤ ev.mss then
      let g := if g.postDone then { g with
          readyForUpgrade := g.readyForUpgrade || !g.uploadFailed
          postDone := false
          uploadFailed := false }
        else g
      resetAnd .close hs g
    else sendPage ev next g
  else ⟨hs, g, .none⟩

/-- `httpd_appcall` for a connection to port 80. -/
def appcall (site : Site) (ev : Event) (hs : HttpdState) (g : Globals) : Result :=
  if ev.closed then resetAnd .close hs g
  else if ev.aborted || ev.timedout then resetAnd .abort hs g
  else if ev.poll then
    let polled := { hs with count := (hs.count + 1) % 65536 }
    if 3000 ≤ hs.count then resetAnd .abort polled g else ⟨polled, g, .none⟩
  else if ev.connected then resetAnd .none hs g
  else if ev.newdata ∧ hs.state = .none then newRequest site ev hs g
  else if ev.acked then handleAcked ev hs g
  else if ev.rexmit then
    if hs.state = .fileRequest then sendPage ev hs g else ⟨hs, g, .none⟩
  else if ev.newdata ∧ hs.state = .uploadRequest then continueUpload site ev hs g
  else ⟨hs, g, .none⟩

end Uboot.Httpd
