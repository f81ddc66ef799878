import Uboot.Env.Common
import Uboot.WebHandlers.Theorems

/-!
# The list of all variables

`env_get_items` (`board/qcom/ipq40xx_cdp/setenv_web.c`) takes the names from the strings at `env_get_addr(0)`
(`common/env_common.c`) and the values from `getenv`. `nand_env_init` and `mmc_env_init` leave `gd->env_addr` at the default
environment; what is loaded later, and `_do_env_set` (`common/cmd_nvedit.c`), change the hash table alone.
-/

namespace Uboot.WebHandlers

open Lib Vsprintf Macrw Env

/-! ## The strings -/

/-- `default_environment`, as `include/configs/ipq40xx_cdp.h` sets it up; the last NUL is that of the string literal. -/
def defaultEnvironment : List UInt8 :=
  ascii "bootcmd=bootipq" ++ 0 :: ascii "bootdelay=2" ++ 0 :: ascii "baudrate=115200" ++ 0 :: ascii "ipaddr=192.168.1.1" ++
    0 :: ascii "serverip=192.168.1.2" ++ [0, 0, 0]

/-- `gd->env_addr`, with the bytes there, and `gd->env_valid` -/
structure GlobalData where
  envAddr : List UInt8
  envValid : Nat

/-- `nand_env_init` and `mmc_env_init`, one of which `env_init` calls -/
def envInit : GlobalData := ⟨defaultEnvironment, 1⟩

/-- `env_get_addr(0)` -/
def envGetAddr (gd : GlobalData) : List UInt8 := if gd.envValid ≠ 0 then gd.envAddr else defaultEnvironment

/-- `for (env = env_get_addr(0); *env; env = nxt + 1)` -/
def envStrings : Nat → List UInt8 → List (List UInt8)
  | 0, _ => []
  | fuel + 1, env =>
      if env.headD 0 = 0 then []
      else
        let s := env.takeWhile (· ≠ 0)
        s :: envStrings fuel (env.drop (s.length + 1))

/-! ## Changes -/

/-- The devices: which names can be assigned to the console, and which values of `baudrate` are supported. A missing value is
read at the null pointer. -/
structure Devices where
  consoleAssign : CStr → CStr → Bool
  baudrate : Option CStr → Bool

/-- `value`: the arguments with blanks between them -/
def joinArgs (args : List CStr) : CStr := List.intercalate [32] args

/-- The console cannot be deleted, nor set to a device that is not there. -/
def consoleRefused (dev : Devices) (name : CStr) (args : List CStr) : Bool :=
  (name = ascii "stdin" || name = ascii "stdout" || name = ascii "stderr") &&
    match args with
    | [] => true
    | value :: _ => !dev.consoleAssign name value

/-- `_do_env_set` for the name `argv[1]` and the arguments from `argv[2]` on: the return value and the table -/
def doEnvSet (dev : Devices) (name : CStr) (args : List CStr) (t : HTab) : Option (Nat × HTab) :=
  if 61 ∈ name then some (1, t)
  else (hsearchR .all ⟨name, none⟩ .FIND t).bind fun ep =>
    if consoleRefused dev name args then some (1, t)
    else if ep.retval ≠ none ∧ name = ascii "baudrate" ∧ dev.baudrate args.head? = false then some (1, t)
    else if args = [] then (hdeleteR name t).map fun rc => (if rc.1 = 0 then 1 else 0, rc.2)
    else (hsearchR .all ⟨name, some (joinArgs args)⟩ .ENTER t).map fun ep => (if ep.retval = none then 1 else 0, ep.htab)

/-- `setenv`: no value and an empty one delete the variable. -/
def setenv (dev : Devices) (name : CStr) (value : Option CStr) (t : HTab) : Option (Nat × HTab) :=
  doEnvSet dev name (if value.getD [] = [] then [] else value.toList) t

/-- What may change the environment after it was loaded -/
inductive Call where
  | envSet (name : CStr) (args : List CStr)
  | setenv (name : CStr) (value : Option CStr)
  | saveenv

/-- The table after a call. `saveenv` exports it. -/
def Call.run (dev : Devices) (t : HTab) : Call → Option HTab
  | .envSet name args => (doEnvSet dev name args t).map (·.2)
  | .setenv name value => (WebHandlers.setenv dev name value t).map (·.2)
  | .saveenv => some t

/-- `env_relocate_spec`, with the bytes that were read, unless reading failed -/
def envRelocateSpec (addr config : Nat) (flash : Option (List UInt8)) : Option (Option HTab) :=
  match flash with
  | none => setDefaultEnv defaultEnvironment config none
  | some buf => (envImport defaultEnvironment addr config buf none).map (·.2)

/-- What `web_setenv_handle` finds when the table is `t`; `malloc` tells whether there is memory for the entries, and `saved`
whether `saveenv` succeeds. -/
def environment (dev : Devices) (malloc saved : Bool) (t : HTab) : Environment where
  strings := envStrings (envGetAddr envInit).length (envGetAddr envInit)
  getenv := fun name => (getenv t name).join
  malloc := malloc
  setenv := fun name value => (setenv dev name value t).any (·.1 = 0)
  saveenv := saved

/-- The names in the default environment -/
def defaultNames : List CStr :=
  [ascii "bootcmd", ascii "bootdelay", ascii "baudrate", ascii "ipaddr", ascii "serverip"]

theorem environment_names (dev : Devices) (malloc saved : Bool) (t : HTab) :
    ((environment dev malloc saved t).strings.filter (·.contains 61)).map (·.takeWhile (· ≠ 61)) = defaultNames := by
  show ((envStrings _ _).filter _).map _ = _
  decide

/-! ## The tables of a run -/

section
variable {dev : Devices} {t t' t₀ : HTab} {addr config : Nat} {flash : Option (List UInt8)}

theorem hsearchR_enter_inv (hinv : t.Inv) (k v : CStr) :
    ∃ r, hsearchR .all ⟨k, some v⟩ .ENTER t = some r ∧ r.htab.Inv := by
  have happly := hinv.apply (.enter k v)
  by_cases hk : t.Live k
  · obtain ⟨i, hl, hki⟩ := hk
    have he := enter_of_live hinv hl hki v
    rw [apply_of_enter he] at happly
    exact ⟨_, he, happly⟩
  · by_cases hfull : t.filled = t.size
    · exact ⟨_, enter_of_full hinv hk hfull v, hinv⟩
    · obtain ⟨i, -, he⟩ := enter_of_not_live hinv hk hfull v
      rw [apply_of_enter he] at happly
      exact ⟨_, he, happly⟩

theorem hdeleteR_inv (hinv : t.Inv) (k : CStr) : ∃ r, hdeleteR k t = some r ∧ r.2.Inv := by
  have happly := hinv.apply (.delete k)
  by_cases hk : t.Live k
  · obtain ⟨i, hl, hki⟩ := hk
    have hd := delete_of_live hinv hl hki
    rw [apply_of_delete hd] at happly
    exact ⟨_, hd, happly⟩
  · exact ⟨_, delete_of_not_live hinv hk, hinv⟩

theorem hsearchR_find_isSome (hinv : t.Inv) (k : CStr) : ∃ r, hsearchR .all ⟨k, none⟩ .FIND t = some r := by
  by_cases hk : t.Live k
  · obtain ⟨i, hl, hki⟩ := hk
    exact ⟨_, find_of_live hinv hl hki .all none⟩
  · exact ⟨_, find_of_not_live hinv hk .all none⟩

/-- `_do_env_set` comes to an end, and keeps the invariant of the table. -/
theorem doEnvSet_inv (hinv : t.Inv) (name : CStr) (args : List CStr) :
    ∃ r, doEnvSet dev name args t = some r ∧ r.2.Inv := by
  obtain ⟨ep, hfind⟩ := hsearchR_find_isSome hinv name
  obtain ⟨rc, hdelete, hcleared⟩ := hdeleteR_inv hinv name
  obtain ⟨ep', henter, hentered⟩ := hsearchR_enter_inv hinv name (joinArgs args)
  rw [doEnvSet, hfind, hdelete, henter, Option.bind_some, Option.map_some, Option.map_some]
  by_cases heq : 61 ∈ name
  · exact ⟨_, if_pos heq, hinv⟩
  rw [if_neg heq]
  by_cases hconsole : consoleRefused dev name args = true
  · exact ⟨_, if_pos hconsole, hinv⟩
  rw [if_neg hconsole]
  by_cases hbaud : ep.retval ≠ none ∧ name = ascii "baudrate" ∧ dev.baudrate args.head? = false
  · exact ⟨_, if_pos hbaud, hinv⟩
  rw [if_neg hbaud]
  by_cases hargs : args = []
  · exact ⟨_, if_pos hargs, hcleared⟩
  · exact ⟨_, if_neg hargs, hentered⟩

/-- A call comes to an end, and keeps the invariant of the table. -/
theorem Call.run_inv (hinv : t.Inv) (call : Call) : ∃ t', call.run dev t = some t' ∧ t'.Inv := by
  cases call with
  | envSet name args =>
      obtain ⟨r, hr, hkept⟩ := @doEnvSet_inv dev t hinv name args
      exact ⟨r.2, by rw [Call.run, hr, Option.map_some], hkept⟩
  | setenv name value =>
      obtain ⟨r, hr, hkept⟩ := @doEnvSet_inv dev t hinv name (if value.getD [] = [] then [] else value.toList)
      exact ⟨r.2, by rw [Call.run, WebHandlers.setenv, hr, Option.map_some], hkept⟩
  | saveenv => exact ⟨t, rfl, hinv⟩

/-- So does every sequence of calls. -/
theorem runs_inv (hinv : t.Inv) (calls : List Call) : ∃ t', calls.foldlM (Call.run dev) t = some t' ∧ t'.Inv := by
  induction calls generalizing t with
  | nil => exact ⟨t, rfl, hinv⟩
  | cons call calls ih =>
      obtain ⟨t₁, hrun, hkept⟩ := @Call.run_inv dev t hinv call
      rw [List.foldlM_cons, hrun]
      exact ih hkept

theorem setDefaultEnv_inv {htab : Option HTab} (hold : ∀ t, htab = some t → t.Inv)
    (h : setDefaultEnv defaultEnvironment config htab = some (some t)) : t.Inv := by
  rw [setDefaultEnv] at h
  split at h
  · exact hold t (Option.some.inj h)
  · obtain ⟨⟨ret, htab'⟩, himport, rfl⟩ := Option.map_eq_some_iff.mp h
    exact (himportR_some himport).1

/-- The table that was loaded meets the invariant. -/
theorem envRelocateSpec_inv (h : envRelocateSpec addr config flash = some (some t)) : t.Inv := by
  cases flash with
  | none => exact setDefaultEnv_inv (fun t ht => by cases ht) h
  | some buf =>
      obtain ⟨⟨ret, htab⟩, himport, rfl⟩ := Option.map_eq_some_iff.mp h
      rw [envImport] at himport
      obtain ⟨⟨crc, data⟩, -, himport⟩ := Option.bind_eq_some_iff.mp himport
      dsimp only at himport
      split at himport
      · obtain ⟨htab', hdefault, he⟩ := Option.map_eq_some_iff.mp himport
        cases he
        exact setDefaultEnv_inv (fun t ht => by cases ht) hdefault
      · obtain ⟨⟨r, htab₁⟩, hread, himport⟩ := Option.bind_eq_some_iff.mp himport
        dsimp only at himport
        split at himport
        · cases himport
          exact (himportR_some hread).1
        · obtain ⟨htab', hdefault, he⟩ := Option.map_eq_some_iff.mp himport
          cases he
          refine setDefaultEnv_inv (fun t ht => ?_) hdefault
          rw [ht] at hread
          exact (himportR_some hread).1

end

/-! ## What is listed -/

/-- The variables that `getenv` finds, each once and with its value -/
structure Exact (t : HTab) (items : List (CStr × CStr)) : Prop where
  once : (items.map Prod.fst).Nodup
  live : ∀ k v, (k, v) ∈ items ↔ getenv t k = some (some v)

/-- The bytes of an answer -/
def Response.text (r : Response) : List (Option UInt8) := (List.range r.len).map r.buf

/-- A request for all variables, whose arguments can be decoded -/
def AllRequest (argv : List (List UInt8)) : Prop :=
  ∃ var valDec, decodeArg (argument (ascii "var=") argv) = some var ∧
    decodeArg (argument (ascii "val=") argv) = some valDec ∧ (var = [] ∨ var = ascii "all")

/-- The answer lists the live variables. -/
def ListsLive (env : Environment) (t : HTab) (argv : List (List UInt8)) (bufsize : Nat) : Prop :=
  ∃ r shown, webSetenvHandle env argv bufsize = some r ∧ Exact t shown ∧
    r.text = (header ++ shown.flatMap itemText).map some

section
variable {dev : Devices} {malloc saved : Bool} {t : HTab} {bufsize : Nat} {r : Response} {text : List UInt8}
  {items shown : List (CStr × CStr)} {argv : List (List UInt8)}

/-- A text that fits is appended. -/
theorem print_text (hfits : r.len + text.length < bufsize) : (r.print bufsize text).text = r.text ++ text.map some := by
  have hsnprintf : snprintf (bufsize - r.len) text = text ++ [0] := by
    rw [snprintf, if_neg (by omega), if_neg (by omega), List.take_of_length_le (by omega)]
  rw [Response.text, print_len, List.range_add, List.map_append, List.map_map]
  congr 1
  · refine List.map_congr_left fun i hi => ?_
    rw [List.mem_range] at hi
    show store r.buf r.len (snprintf (bufsize - r.len) text) i = r.buf i
    rw [store, if_neg (by omega)]
  · refine List.ext_getElem (by simp) fun i hi _ => ?_
    rw [List.length_map, List.length_range] at hi
    rw [List.getElem_map, List.getElem_range, List.getElem_map, Function.comp_apply]
    show store r.buf r.len (snprintf (bufsize - r.len) text) (r.len + i) = some text[i]
    rw [hsnprintf, store, List.length_append, if_pos (by omega), Nat.add_sub_cancel_left, List.getD_eq_getElem?_getD,
      List.getElem?_append_left hi, List.getElem?_eq_getElem hi, Option.getD_some]

theorem terminate_text : r.terminate.text = r.text := by
  refine List.map_congr_left fun i hi => ?_
  have hlt : i < r.len := List.mem_range.mp hi
  show store r.buf r.len [0] i = r.buf i
  rw [store, if_neg (by omega)]

theorem listed_self_cons (base : Nat) (item : CStr × CStr) (items : List (CStr × CStr)) :
    listed base (item :: items) (item :: items).length = listed (base + (item.1.length + item.2.length + 5)) items items.length :=
  listed_cons base item items.length

/-- When the whole list fits, it is printed. -/
theorem listLoop_text (hfits : listed r.len items items.length < bufsize) :
    (listLoop bufsize items r).2 = false ∧
      (listLoop bufsize items r).1.text = r.text ++ (items.flatMap itemText).map some := by
  induction items generalizing r with
  | nil => exact ⟨rfl, by simp [listLoop]⟩
  | cons item items ih =>
      rw [listed_self_cons] at hfits
      have hle := @le_listed items (r.len + (item.1.length + item.2.length + 5)) items.length
      have hnext := @ih (r.print bufsize (itemText item)) (by rwa [print_len, itemText_length])
      have hitem : r.len + (itemText item).length < bufsize := by
        rw [itemText_length]
        omega
      rw [listLoop, if_neg (by omega)]
      refine ⟨hnext.1, ?_⟩
      rw [hnext.2, print_text hitem, List.flatMap_cons, List.map_append, List.append_assoc]

theorem flatMap_itemText_length (base : Nat) (items : List (CStr × CStr)) :
    base + (items.flatMap itemText).length = listed base items items.length := by
  induction items generalizing base with
  | nil => rfl
  | cons item items ih => rw [listed_self_cons, ← ih, List.flatMap_cons, List.length_append, itemText_length, Nat.add_assoc base]

/-- The entries that are printed -/
theorem envGetItems_environment : envGetItems (environment dev malloc saved t) =
    if malloc then defaultNames.filterMap fun name => (getenv t name).join.map fun value => (name, value) else [] := by
  rw [← environment_names dev malloc saved t, List.filterMap_map]
  rfl

theorem mem_envGetItems (k v : CStr) : (k, v) ∈ envGetItems (environment dev malloc saved t) ↔
    malloc = true ∧ k ∈ defaultNames ∧ getenv t k = some (some v) := by
  rw [envGetItems_environment]
  cases malloc with
  | false => simp
  | true =>
      simp only [if_true, List.mem_filterMap, Option.map_eq_some_iff, Prod.mk.injEq, true_and, Option.join_eq_some_iff]
      constructor
      · rintro ⟨name, hname, value, hvalue, rfl, rfl⟩
        exact ⟨hname, hvalue⟩
      · rintro ⟨hname, hvalue⟩
        exact ⟨k, hname, v, hvalue, rfl, rfl⟩

theorem fst_filterMap (names : List CStr) (f : CStr → Option CStr) :
    (names.filterMap fun name => (f name).map fun value => (name, value)).map Prod.fst =
      names.filter fun name => (f name).isSome := by
  induction names with
  | nil => rfl
  | cons name names ih =>
      rw [List.filterMap_cons, List.filter_cons]
      cases f name with
      | none => exact ih
      | some value => exact congrArg (name :: ·) ih

theorem envGetItems_once : ((envGetItems (environment dev malloc saved t)).map Prod.fst).Nodup := by
  have hnames : defaultNames.Nodup := by decide
  rw [envGetItems_environment]
  cases malloc with
  | false => exact List.nodup_nil
  | true =>
      rw [if_pos rfl, fst_filterMap]
      exact hnames.filter _

/-- The entries that are printed are live, so that their list is as short. -/
theorem envGetItems_subperm (hitems : Exact t items) : ∃ rest, items.Perm (envGetItems (environment dev malloc saved t) ++ rest) := by
  have hsub : envGetItems (environment dev malloc saved t) ⊆ items := by
    rintro ⟨k, v⟩ hmem
    exact (hitems.live k v).mpr ((mem_envGetItems k v).mp hmem).2.2
  obtain ⟨l, hperm, hsublist⟩ := (List.Nodup.of_map _ envGetItems_once).subperm hsub
  obtain ⟨rest, hrest⟩ := hsublist.exists_perm_append
  exact ⟨rest, hrest.trans (hperm.append_right rest)⟩

theorem itemsLength_perm {l l' : List (CStr × CStr)} (h : l.Perm l') :
    (l.flatMap itemText).length = (l'.flatMap itemText).length := (h.flatMap_right itemText).length_eq

/-- The answer to a request for all variables -/
theorem webSetenvHandle_all (hall : AllRequest argv) (hitems : Exact t items)
    (hfits : listed 64 items items.length < bufsize) :
    ∃ r, webSetenvHandle (environment dev malloc saved t) argv bufsize = some r ∧
      r.text = (header ++ (envGetItems (environment dev malloc saved t)).flatMap itemText).map some := by
  obtain ⟨var, valDec, hvar, hval, hname⟩ := hall
  obtain ⟨rest, hperm⟩ := @envGetItems_subperm dev malloc saved t items hitems
  rw [← flatMap_itemText_length, itemsLength_perm hperm, List.flatMap_append, List.length_append] at hfits
  have hheader : (Response.init.print bufsize header).text = header.map some :=
    print_text (by rw [header_length]; show 0 + 64 < bufsize; omega)
  obtain ⟨hwhole, htext⟩ := @listLoop_text bufsize (Response.init.print bufsize header)
    (envGetItems (environment dev malloc saved t)) (by rw [header_len, ← flatMap_itemText_length]; omega)
  refine ⟨_, by simp only [webSetenvHandle, hvar, hval, Option.bind_eq_bind, Option.bind_some, if_pos hname]; rfl, ?_⟩
  rw [terminate_text, listVars, hwhole, if_neg Bool.false_ne_true, htext, hheader, List.map_append]

/-- The list is the live environment just when every live variable is in the default environment, too, and there is memory. -/
theorem listsLive_iff (hall : AllRequest argv) (hitems : Exact t items)
    (hfits : listed 64 items items.length < bufsize) :
    ListsLive (environment dev malloc saved t) t argv bufsize ↔
      ∀ k v, getenv t k = some (some v) → malloc = true ∧ k ∈ defaultNames := by
  obtain ⟨r, hr, htext⟩ := @webSetenvHandle_all dev malloc saved t bufsize items argv hall hitems hfits
  constructor
  · rintro ⟨r', shown, hr', hshown, htext'⟩ k v hlive
    cases hr.symm.trans hr'
    obtain ⟨rest, hperm⟩ := @envGetItems_subperm dev malloc saved t shown hshown
    -- what is missing would make the text longer
    have hlen := congrArg List.length (htext.symm.trans htext')
    rw [List.length_map, List.length_map, List.length_append, List.length_append, itemsLength_perm hperm,
      List.flatMap_append, List.length_append] at hlen
    have hrest : rest = [] := by
      cases rest with
      | nil => rfl
      | cons item rest =>
          rw [List.flatMap_cons, List.length_append, itemText_length] at hlen
          omega
    rw [hrest, List.append_nil] at hperm
    have hmem := (mem_envGetItems k v).mp (hperm.mem_iff.mp ((hshown.live k v).mpr hlive))
    exact ⟨hmem.1, hmem.2.1⟩
  · intro hnames
    refine ⟨r, _, hr, ⟨envGetItems_once, fun k v => ?_⟩, htext⟩
    rw [mem_envGetItems]
    exact ⟨fun h => h.2.2, fun h => ⟨(hnames k v h).1, (hnames k v h).2, h⟩⟩

end

/-! ## Every run -/

/-- The variable in a slot -/
def HTab.bindingAt (t : HTab) (i : Nat) : Option (CStr × CStr) :=
  if t.LiveAt i then (t.table i).key.bind fun k => (t.table i).data.map fun v => (k, v) else none

/-- The variables in the table -/
def HTab.bindings (t : HTab) : List (CStr × CStr) := (List.range (t.size + 1)).filterMap (HTab.bindingAt t)

section
variable {dev : Devices} {malloc saved : Bool} {t t₀ : HTab} {bufsize addr config : Nat} {flash : Option (List UInt8)}
  {argv : List (List UInt8)}

theorem bindingAt_iff {i : Nat} {k v : CStr} :
    HTab.bindingAt t i = some (k, v) ↔ t.LiveAt i ∧ (t.table i).key = some k ∧ (t.table i).data = some v := by
  rw [HTab.bindingAt]
  split
  next hl =>
    rw [Option.bind_eq_some_iff]
    constructor
    · rintro ⟨k', hk, hv⟩
      obtain ⟨v', hv, he⟩ := Option.map_eq_some_iff.mp hv
      cases he
      exact ⟨hl, hk, hv⟩
    · rintro ⟨-, hk, hv⟩
      exact ⟨k, hk, by rw [hv, Option.map_some]⟩
  next hl => simp [hl]

theorem mem_bindings (k v : CStr) : (k, v) ∈ HTab.bindings t ↔ t.Binds k v := by
  rw [HTab.bindings, List.mem_filterMap]
  constructor
  · rintro ⟨i, -, hi⟩
    exact ⟨i, bindingAt_iff.mp hi⟩
  · rintro ⟨i, hi⟩
    exact ⟨i, List.mem_range.mpr (Nat.lt_succ_of_le hi.1.2.1), bindingAt_iff.mpr hi⟩

theorem bindings_once (hinv : t.Inv) : ((HTab.bindings t).map Prod.fst).Nodup := by
  rw [HTab.bindings, List.map_filterMap]
  refine List.Nodup.filterMap (fun i j k hi hj => ?_) List.nodup_range
  obtain ⟨⟨k₁, v₁⟩, hbi, hki⟩ := Option.map_eq_some_iff.mp hi
  obtain ⟨⟨k₂, v₂⟩, hbj, hkj⟩ := Option.map_eq_some_iff.mp hj
  have he : k₁ = k₂ := hki.trans hkj.symm
  obtain ⟨hli, hi, -⟩ := bindingAt_iff.mp hbi
  obtain ⟨hlj, hj, -⟩ := bindingAt_iff.mp hbj
  exact hinv.unique i j hli hlj (by rw [hi, hj, he])

theorem exact_bindings (hinv : t.Inv) : Exact t (HTab.bindings t) where
  once := bindings_once hinv
  live := fun k v => (mem_bindings k v).trans ⟨getenv_of_binds hinv, binds_of_getenv hinv⟩

/-- After every sequence of changes since the environment was loaded, the list is the live environment just when every live
variable is in the default environment, too, and there is memory. -/
theorem listing_live_iff (hboot : envRelocateSpec addr config flash = some (some t₀)) (calls : List Call) :
    ∃ t, calls.foldlM (Call.run dev) t₀ = some t ∧ Exact t (HTab.bindings t) ∧
      ∀ malloc saved argv bufsize, AllRequest argv → listed 64 (HTab.bindings t) (HTab.bindings t).length < bufsize →
        (ListsLive (environment dev malloc saved t) t argv bufsize ↔
          ∀ k v, getenv t k = some (some v) → malloc = true ∧ k ∈ defaultNames) := by
  obtain ⟨t, hrun, hinv⟩ := @runs_inv dev t₀ (envRelocateSpec_inv hboot) calls
  exact ⟨t, hrun, exact_bindings hinv, fun malloc saved argv bufsize hall hfits =>
    listsLive_iff hall (exact_bindings hinv) hfits⟩

end

/-- A console that takes any device, at any rate -/
def anyDevice : Devices := ⟨fun _ _ => true, fun _ => true⟩

/-- What changes leave of the default environment -/
def changed (calls : List Call) : Option HTab :=
  (envRelocateSpec 0 256 none).bind fun t => t.bind fun t => calls.foldlM (Call.run anyDevice) t

theorem changed_some {calls : List Call} {l : List (CStr × CStr)} (h : (changed calls).map HTab.bindings = some l) :
    ∃ t₀ t, envRelocateSpec 0 256 none = some (some t₀) ∧ calls.foldlM (Call.run anyDevice) t₀ = some t ∧
      HTab.bindings t = l := by
  obtain ⟨t, ht, hl⟩ := Option.map_eq_some_iff.mp h
  obtain ⟨htab, hboot, ht⟩ := Option.bind_eq_some_iff.mp ht
  obtain ⟨t₀, rfl, hrun⟩ := Option.bind_eq_some_iff.mp ht
  exact ⟨t₀, t, hboot, hrun, hl⟩

theorem allRequest_all : AllRequest [ascii "var=all"] :=
  ⟨ascii "all", [], by decide, by decide, Or.inr rfl⟩

/-- A new address is listed. -/
theorem listing_live_sample : ∃ t₀ t, envRelocateSpec 0 256 none = some (some t₀) ∧
    [Call.setenv (ascii "ipaddr") (some (ascii "10.0.0.1"))].foldlM (Call.run anyDevice) t₀ = some t ∧
    ListsLive (environment anyDevice true true t) t [ascii "var=all"] 8192 := by
  obtain ⟨t₀, t, hboot, hrun, hl⟩ := changed_some (show (changed [.setenv (ascii "ipaddr") (some (ascii "10.0.0.1"))]).map
    HTab.bindings = some [(ascii "bootcmd", ascii "bootipq"), (ascii "baudrate", ascii "115200"),
      (ascii "bootdelay", ascii "2"), (ascii "serverip", ascii "192.168.1.2"), (ascii "ipaddr", ascii "10.0.0.1")]
    by set_option maxRecDepth 1000 in decide)
  obtain ⟨t', hrun', hexact, hiff⟩ := @listing_live_iff anyDevice t₀ 0 256 none hboot
    [.setenv (ascii "ipaddr") (some (ascii "10.0.0.1"))]
  cases hrun.symm.trans hrun'
  refine ⟨t₀, t, hboot, hrun, (hiff true true _ 8192 allRequest_all ?_).mpr fun k v hlive => ⟨rfl, ?_⟩⟩
  · rw [hl]
    decide
  · have hmem := (hexact.live k v).mpr hlive
    rw [hl] at hmem
    have hall : ∀ p ∈ [(ascii "bootcmd", ascii "bootipq"), (ascii "baudrate", ascii "115200"),
        (ascii "bootdelay", ascii "2"), (ascii "serverip", ascii "192.168.1.2"), (ascii "ipaddr", ascii "10.0.0.1")],
        p.1 ∈ defaultNames := by decide
    exact hall _ hmem

/-- A new variable is not. -/
theorem listing_misses_new : ∃ t₀ t, envRelocateSpec 0 256 none = some (some t₀) ∧
    [Call.setenv (ascii "foo") (some (ascii "bar"))].foldlM (Call.run anyDevice) t₀ = some t ∧
    getenv t (ascii "foo") = some (some (ascii "bar")) ∧
    listed 64 (HTab.bindings t) (HTab.bindings t).length < 8192 ∧ AllRequest [ascii "var=all"] ∧
    ¬ ListsLive (environment anyDevice true true t) t [ascii "var=all"] 8192 := by
  obtain ⟨t₀, t, hboot, hrun, hl⟩ := changed_some (show (changed [.setenv (ascii "foo") (some (ascii "bar"))]).map
    HTab.bindings = some [(ascii "foo", ascii "bar"), (ascii "bootcmd", ascii "bootipq"), (ascii "baudrate", ascii "115200"),
      (ascii "bootdelay", ascii "2"), (ascii "serverip", ascii "192.168.1.2"), (ascii "ipaddr", ascii "192.168.1.1")]
    by set_option maxRecDepth 1000 in decide)
  obtain ⟨t', hrun', hinv⟩ := @runs_inv anyDevice t₀ (envRelocateSpec_inv hboot)
    [.setenv (ascii "foo") (some (ascii "bar"))]
  cases hrun.symm.trans hrun'
  have hexact := exact_bindings hinv
  have hfoo : getenv t (ascii "foo") = some (some (ascii "bar")) :=
    (hexact.live _ _).mp (by rw [hl]; exact List.mem_cons_self)
  have hfits : listed 64 (HTab.bindings t) (HTab.bindings t).length < 8192 := by
    rw [hl]
    decide
  refine ⟨t₀, t, hboot, hrun, hfoo, hfits, allRequest_all, ?_⟩
  rw [listsLive_iff allRequest_all hexact hfits]
  intro hnames
  exact absurd (hnames _ _ hfoo).2 (by decide)

end Uboot.WebHandlers
