import Uboot.Upgrade.Basic

/-!
# What the shell makes of the lines
-/

namespace Uboot.Upgrade

open Lib Vsprintf

/-! ## Numbers -/

section
variable {c : UInt8} {cp : List UInt8} {n : Nat}

theorem upper_xdigit (h : isxdigit c = true) :
    isxdigit (if 97 ≤ c then c - 32 else c) = true ∧ digitValue (if 97 ≤ c then c - 32 else c) = digitValue c ∧
      (hexDigit (if 97 ≤ c then c - 32 else c)).toNat = digitValue c ∧ digitValue c < 16 := by
  have hall : ∀ k < 256, ∀ c, c = UInt8.ofNat k → isxdigit c = true →
      isxdigit (if 97 ≤ c then c - 32 else c) = true ∧ digitValue (if 97 ≤ c then c - 32 else c) = digitValue c ∧
        (hexDigit (if 97 ≤ c then c - 32 else c)).toNat = digitValue c ∧ digitValue c < 16 := by
    simp only [forall_eq]
    set_option maxRecDepth 1000 in decide
  exact hall c.toNat c.toNat_lt c (by simp) h

theorem strtoulLoop_upper (h : ∀ c ∈ cp, isxdigit c = true) (r : Nat) :
    (strtoulLoop 16 (cp.map fun c => if 97 ≤ c then c - 32 else c) r).1 = (strtoulLoop 16 cp r).1 := by
  induction cp generalizing r with
  | nil => rfl
  | cons c cp ih =>
      have hc := h c List.mem_cons_self
      obtain ⟨hup, hval, -, hlt⟩ := upper_xdigit hc
      simp only [List.map_cons, strtoulLoop, hup, hval, hc, hlt, and_self, if_true]
      exact ih (fun c hmem => h c (List.mem_cons_of_mem _ hmem)) _

theorem shift_or {val d : Nat} (hd : d < 16) : (val <<< 4) % 2 ^ 32 ||| d = (val * 16 + d) % 2 ^ 32 := by
  have hmul : (val <<< 4) % 2 ^ 32 = 2 ^ 4 * (val % 2 ^ 28) := by
    rw [Nat.shiftLeft_eq]
    omega
  rw [hmul, ← Nat.two_pow_add_eq_or_of_lt hd]
  omega

theorem hex2int_upper (h : ∀ c ∈ cp, isxdigit c = true) (r : Nat) :
    (cp.map fun c => if 97 ≤ c then c - 32 else c).foldl
      (fun val c => (val <<< 4) % 2 ^ 32 ||| (hexDigit c).toNat) r = (strtoulLoop 16 cp r).1 := by
  induction cp generalizing r with
  | nil => rfl
  | cons c cp ih =>
      have hc := h c List.mem_cons_self
      obtain ⟨-, -, hval, hlt⟩ := upper_xdigit hc
      rw [List.map_cons, List.foldl_cons, hval, shift_or hlt,
        ih (fun c hmem => h c (List.mem_cons_of_mem _ hmem)), strtoulLoop, hc, if_pos ⟨rfl, hlt⟩]

theorem strtoulLoop_hex (n : Nat) : (strtoulLoop 16 (numeral 16 n) 0).1 = n % 2 ^ 32 := by
  have h := strtoulLoop_numeral (show 1 < 16 by decide) le_rfl n []
  rw [List.append_nil] at h
  rw [h, strtoulLoop]

theorem hexArg_hex (n : Nat) : hexArg (48 :: 120 :: numeral 16 n) = n % 2 ^ 32 := by
  have h : simpleStrtoul (48 :: 120 :: numeral 16 n ++ []) 16 = _ := simpleStrtoul_hex n []
  rw [List.append_nil] at h
  rw [hexArg, h, strtoulLoop]

/-- `filesize` is read back by both: by `hex2int`, and by the command it is an argument of. -/
theorem hex2int_numeralX (n : Nat) : hex2int (numeralX n) = n % 2 ^ 32 := by
  rw [hex2int, numeralX, hex2int_upper (fun c h => isxdigit_of_mem_numeral h), strtoulLoop_hex]

theorem hexArg_numeralX (n : Nat) : hexArg (numeralX n) = n % 2 ^ 32 := by
  rw [← strtoulLoop_hex, ← strtoulLoop_upper (fun c h => isxdigit_of_mem_numeral h), hexArg, numeralX]
  rcases Nat.eq_zero_or_pos n with rfl | hn
  · decide
  obtain ⟨d, ds, hpos, hlt, hds⟩ := numeral_head (show 1 < 16 by decide) le_rfl hn
  have hall : ∀ e < 16, 0 < e → (if 97 ≤ UInt8.ofNat (Nat.digitChar e).toNat then
      UInt8.ofNat (Nat.digitChar e).toNat - 32 else UInt8.ofNat (Nat.digitChar e).toNat) ≠ 48 := by decide
  rw [hds, List.map_cons]
  unfold simpleStrtoul
  split
  next heq => exact absurd (List.cons.inj heq).1 (hall d hlt hpos)
  next => rfl

end

/-! ## Words -/

section
variable {w : Word} {exec : Cmd → Bool} {sh : Shell} {start size n : Nat}

theorem words_append (a b : List UInt8) : words (a ++ 32 :: b) = words a ++ words b := by
  rw [words, List.splitOn_append_cons_self, List.filter_append, words, words]

theorem words_single (h : 32 ∉ w) (hne : w ≠ []) : words w = [w] := by
  rw [words, List.splitOn_eq_singleton h]
  simp [hne]

/-- `0x%x` -/
def hex (n : Nat) : Word := 48 :: 120 :: numeral 16 n

theorem blank_not_mem_hex : 32 ∉ hex n := by
  intro h
  simp only [hex, List.mem_cons] at h
  rcases h with h | h | h
  · exact absurd h (by decide)
  · exact absurd h (by decide)
  · exact absurd (isxdigit_of_mem_numeral h) (by decide)

theorem words_hex : words (hex n) = [hex n] := words_single blank_not_mem_hex (by simp [hex])

theorem amp_ne_hex : ascii "&&" ≠ hex n := by
  rw [show ascii "&&" = [38, 38] from rfl, hex]
  intro h
  exact absurd (List.cons.inj h).1 (by decide)

theorem words_flashLine {select dev : String} (hdev : words (ascii dev) = [ascii dev]) (hlen : words w = [w]) :
    words (flashLine select dev start size w) =
      words (ascii select) ++ ascii "&&" :: ([ascii dev, ascii "erase", hex start, hex size] ++
        ascii "&&" :: [ascii dev, ascii "write", ascii "0x88000000", hex start, w]) := by
  have hline : flashLine select dev start size w =
      ascii select ++ 32 :: (ascii "&&" ++ 32 :: (ascii dev ++ 32 :: (ascii "erase" ++ 32 :: (hex start ++ 32 ::
        (hex size ++ 32 :: (ascii "&&" ++ 32 :: (ascii dev ++ 32 :: (ascii "write" ++ 32 ::
          (ascii "0x88000000" ++ 32 :: (hex start ++ 32 :: w)))))))))) := by
    simp only [flashLine, hex, List.append_assoc, List.cons_append]
    rfl
  have hamp : words (ascii "&&") = [ascii "&&"] := by decide
  have herase : words (ascii "erase") = [ascii "erase"] := by decide
  have hwrite : words (ascii "write") = [ascii "write"] := by decide
  have haddr : words (ascii "0x88000000") = [ascii "0x88000000"] := by decide
  rw [hline]
  simp only [words_append, hamp, hdev, herase, hwrite, haddr, words_hex, hlen]
  rfl

/-! ## Text that is read again -/

/-- One word that the shell leaves as it is. -/
def Plain (w : Word) : Prop := w ≠ [] ∧ ∀ c ∈ w, c ∉ ([39, 34, 92, 32, 9, 10, 35] : List UInt8)

instance (w : Word) : Decidable (Plain w) := @instDecidableAnd _ _ _ (List.decidableBAll _ w)

theorem plain_of_xdigit {c : UInt8} (h : isxdigit c = true) : c ∉ ([39, 34, 92, 32, 9, 10, 35] : List UInt8) := by
  intro hc
  simp only [List.mem_cons, List.not_mem_nil, or_false] at hc
  rcases hc with rfl | rfl | rfl | rfl | rfl | rfl | rfl <;> exact absurd h (by decide)

theorem plain_hex : Plain (hex n) := by
  refine ⟨by simp [hex], fun c hc => ?_⟩
  simp only [hex, List.mem_cons] at hc
  rcases hc with rfl | rfl | hc
  · decide
  · decide
  · exact plain_of_xdigit (isxdigit_of_mem_numeral hc)

theorem plain_numeralX : Plain (numeralX n) := by
  refine ⟨by simp [numeralX, numeral_ne_nil], fun c hc => ?_⟩
  obtain ⟨d, hd, rfl⟩ := List.mem_map.mp hc
  exact plain_of_xdigit (upper_xdigit (isxdigit_of_mem_numeral hd)).1

theorem unescape_eq (h : ∀ c ∈ w, c ≠ 92) : unescape w = w := by
  induction w with
  | nil => rfl
  | cons c w ih =>
      have hc : c ≠ 92 := h c List.mem_cons_self
      unfold unescape
      split
      next heq => cases heq
      next heq => exact absurd (List.cons.inj heq).1 hc
      next heq =>
        obtain ⟨rfl, rfl⟩ := List.cons.inj heq
        rw [if_neg hc, ih fun c hmem => h c (List.mem_cons_of_mem _ hmem)]

theorem doneWord_plain (h : Plain w) : doneWord false w = [w] := by
  rw [doneWord, if_neg (by simp [h.1]), unescape_eq]
  rintro c hc rfl
  exact h.2 92 hc (by decide)

theorem rereadFrom_append (h : ∀ c ∈ w, c ∉ ([39, 34, 92, 32, 9, 10, 35] : List UInt8)) (word cs : List UInt8) :
    rereadFrom false false .plain word (w ++ cs) = rereadFrom false false .plain (word ++ w) cs := by
  induction w generalizing word with
  | nil => rw [List.nil_append, List.append_nil]
  | cons c w ih =>
      have hc := h c List.mem_cons_self
      simp only [List.mem_cons, List.not_mem_nil, or_false, not_or] at hc
      obtain ⟨h39, h34, h92, h32, h9, h10, h35⟩ := hc
      rw [List.cons_append, rereadFrom, if_neg h39, if_neg h34, if_neg h92,
        if_neg (by simp [h32, h9, h10]), if_neg (by simp [h35]), addqchr, if_neg (by simp),
        ih fun c hmem => h c (List.mem_cons_of_mem _ hmem), List.append_assoc]
      rfl

theorem reread_cons (h : Plain w) (cs : List UInt8) : reread (w ++ 32 :: cs) = (reread cs).map (w :: ·) := by
  rw [reread, rereadFrom_append h.2, List.nil_append, rereadFrom, if_neg (by decide), if_neg (by decide),
    if_neg (by decide), if_pos (by simp), doneWord_plain h]
  rfl

theorem reread_single (h : Plain w) : reread w = some [w] := by
  have happend := rereadFrom_append h.2 [] []
  rw [List.append_nil, List.nil_append] at happend
  rw [reread, happend, rereadFrom, if_neg Bool.false_ne_true, doneWord_plain h]

/-- Plain words come back as they were. -/
theorem reread_intercalate {argv : List Word} (h : ∀ w ∈ argv, Plain w) : reread ([32].intercalate argv) = some argv := by
  induction argv with
  | nil => rfl
  | cons w argv ih =>
      have hw := h w List.mem_cons_self
      cases argv with
      | nil =>
          rw [List.intercalate_singleton]
          exact reread_single hw
      | cons w' argv =>
          have hrest := ih fun w hmem => h w (List.mem_cons_of_mem _ hmem)
          have hjoin : [32].intercalate (w :: w' :: argv) = w ++ 32 :: [32].intercalate (w' :: argv) := rfl
          rw [hjoin, reread_cons hw, hrest, Option.map_some]

/-! ## Commands joined by `&&` -/

/-- The commands that are started, and whether all succeed. -/
def runAll (exec : Cmd → Bool) : List Cmd → List Cmd × Bool
  | [] => ([], true)
  | c :: cs => if exec c then (c :: (runAll exec cs).1, (runAll exec cs).2) else ([c], false)

theorem runAll_of_ok {cs : List Cmd} (h : ∀ c ∈ cs, exec c = true) : runAll exec cs = (cs, true) := by
  induction cs with
  | nil => rfl
  | cons c cs ih =>
      rw [runAll, if_pos (h c List.mem_cons_self), ih fun c hc => h c (List.mem_cons_of_mem _ hc)]

theorem runAll_ok {cs : List Cmd} (h : (runAll exec cs).2 = true) : ∀ c ∈ cs, exec c = true := by
  induction cs with
  | nil => simp
  | cons c cs ih =>
      rw [runAll] at h
      split at h
      next hc => exact List.forall_mem_cons.mpr ⟨hc, ih h⟩
      next => cases h

theorem map_insertVarValue {argv : List Word} (h : hasVar argv = false) : argv.map sh.insertVarValue = argv := by
  refine (List.map_congr_left fun w hw => ?_).trans (List.map_id argv)
  have hw36 : w.head? ≠ some 36 := by simpa using List.any_eq_false.mp h w hw
  unfold Shell.insertVarValue
  split
  next => exact absurd rfl hw36
  next => rfl

/-- A command whose words are plain with the values of its variables. -/
theorem runPipeReal_plain {argv : List Word} (h : ∀ w ∈ argv, Plain (sh.insertVarValue w)) :
    runPipeReal exec sh argv = cmdProcess exec (argv.map sh.insertVarValue) := by
  rw [runPipeReal]
  split
  next => rw [Shell.makeString, reread_intercalate (by simpa using h)]
  next hvar => rw [map_insertVarValue (by simpa using hvar)]

theorem runList_cons {argv : List Word} {rest : List (List Word)} {c : Cmd} {cs : List Cmd} (h : assignment argv = none)
    (hpipe : runPipeReal exec sh argv = ([c], exec c)) (hrest : runList exec sh rest = runAll exec cs) :
    runList exec sh (argv :: rest) = runAll exec (c :: cs) := by
  rw [runList, h]
  dsimp only
  rw [hpipe, hrest, runAll]
  cases exec c <;> rfl

theorem runPipeReal_eq {argv : List Word} {c : Cmd} (hne : argv ≠ []) (h : ∀ w ∈ argv, Plain (sh.insertVarValue w))
    (hc : parseCmd (argv.map sh.insertVarValue) = c) : runPipeReal exec sh argv = ([c], exec c) := by
  rw [runPipeReal_plain h, cmdProcess, hc]
  simpa using hne

/-- The argument for the length is one word, and no separator. -/
def LengthArg (w : Word) : Prop := words w = [w] ∧ ascii "&&" ≠ w

theorem lengthArg_hex : LengthArg (hex n) := ⟨words_hex, amp_ne_hex⟩

theorem lengthArg_filesize : LengthArg (ascii "$filesize") := ⟨by decide, by decide⟩

theorem insertVarValue_hex : sh.insertVarValue (hex n) = hex n := rfl

theorem insertVarValue_filesize (h : sh.env (ascii "filesize") = some (numeralX n)) :
    sh.insertVarValue (ascii "$filesize") = numeralX n := by
  have htext : ascii "$filesize" = 36 :: ascii "filesize" := by decide
  have hname : (ascii "filesize").takeWhile isName = ascii "filesize" := by decide
  have hrest : (ascii "filesize").dropWhile isName = [] := by decide
  have hline : ∀ c ∈ numeralX n, (if c = 10 then 32 else c) = c := by
    intro c hc
    refine if_neg ?_
    rintro rfl
    exact plain_numeralX.2 10 hc (by decide)
  rw [htext, Shell.insertVarValue, hname, hrest, Shell.lookupParam, h, Option.some_or, Option.getD_some, List.append_nil,
    List.map_congr_left hline, List.map_id']

theorem runCommand_flashLine {select dev : String} {d : Dev} (hdev : words (ascii dev) = [ascii dev])
    (hd : devOf (ascii dev) = some d) (hmem : ascii "&&" ∉ [ascii dev]) (hx : sh.insertVarValue (ascii dev) = ascii dev)
    (hplain : Plain (ascii dev)) (hselect : ascii "&&" ∉ words (ascii select))
    (hassign : assignment (words (ascii select)) = none)
    (hpipe : runPipeReal exec sh (words (ascii select)) =
      ([.other (words (ascii select))], exec (.other (words (ascii select)))))
    (hw : LengthArg w) (hlen : Plain (sh.insertVarValue w)) (hstart : start < 2 ^ 32) (hsize : size < 2 ^ 32) :
    runCommand exec sh (flashLine select dev start size w) =
      runAll exec [.other (words (ascii select)), .erase d start size,
        .write d 0x88000000 start (hexArg (sh.insertVarValue w))] := by
  have hnil : flashLine select dev start size w ≠ [] := by simp [flashLine]
  have hamp : ∀ k, ascii "&&" ≠ hex k := fun k => amp_ne_hex
  have hmem : ascii "&&" ≠ ascii dev := by simpa using hmem
  have herase : sh.insertVarValue (ascii "erase") = ascii "erase" := rfl
  have hwrite : sh.insertVarValue (ascii "write") = ascii "write" := rfl
  have haddr : sh.insertVarValue (ascii "0x88000000") = ascii "0x88000000" := rfl
  rw [runCommand, if_neg hnil, words_flashLine hdev hw.1, List.splitOn_append_cons_self, List.splitOn_append_cons_self,
    List.splitOn_eq_singleton hselect, List.splitOn_eq_singleton, List.splitOn_eq_singleton]
  · refine runList_cons hassign hpipe (runList_cons rfl ?_ (runList_cons rfl ?_ rfl))
    · refine runPipeReal_eq (by simp) ?_ ?_
      · simp only [List.forall_mem_cons, List.not_mem_nil, false_imp_iff, implies_true, and_true, hx, herase,
          insertVarValue_hex]
        exact ⟨hplain, by decide, plain_hex, plain_hex⟩
      · simp only [List.map_cons, List.map_nil, hx, herase, insertVarValue_hex]
        simp only [parseCmd, hd, if_true, hex, hexArg_hex, Nat.mod_eq_of_lt hstart, Nat.mod_eq_of_lt hsize]
    · refine runPipeReal_eq (by simp) ?_ ?_
      · simp only [List.forall_mem_cons, List.not_mem_nil, false_imp_iff, implies_true, and_true, hx, hwrite, haddr,
          insertVarValue_hex]
        exact ⟨hplain, by decide, by decide, plain_hex, hlen⟩
      · simp only [List.map_cons, List.map_nil, hx, hwrite, haddr, insertVarValue_hex]
        simp only [parseCmd, hd, if_true, hex, hexArg_hex, Nat.mod_eq_of_lt hstart]
        rfl
  · simp only [List.mem_cons, List.not_mem_nil, or_false, not_or]
    exact ⟨hmem, by decide, by decide, hamp start, hw.2⟩
  · simp only [List.mem_cons, List.not_mem_nil, or_false, not_or]
    exact ⟨hmem, by decide, hamp start, hamp size⟩

theorem runCommand_sf (hw : LengthArg w) (hlen : Plain (sh.insertVarValue w)) (hstart : start < 2 ^ 32)
    (hsize : size < 2 ^ 32) :
    runCommand exec sh (flashLine "sf probe" "sf" start size w) =
      runAll exec [.other [ascii "sf", ascii "probe"], .erase .sf start size,
        .write .sf 0x88000000 start (hexArg (sh.insertVarValue w))] :=
  runCommand_flashLine (by decide) (by decide) (by decide) rfl (by decide) (by decide) (by decide) rfl hw hlen hstart hsize

theorem runCommand_nand (hw : LengthArg w) (hlen : Plain (sh.insertVarValue w)) (hstart : start < 2 ^ 32)
    (hsize : size < 2 ^ 32) :
    runCommand exec sh (flashLine "nand device 1" "nand" start size w) =
      runAll exec [.other [ascii "nand", ascii "device", ascii "1"], .erase .nand start size,
        .write .nand 0x88000000 start (hexArg (sh.insertVarValue w))] :=
  runCommand_flashLine (by decide) (by decide) (by decide) rfl (by decide) (by decide) (by decide) rfl hw hlen hstart hsize

theorem runCommand_mmc (hn : n < 2 ^ 32) :
    runCommand exec sh (mmcLine n) =
      runAll exec [.erase .mmc 0 0x109800, .write .mmc 0x88000000 0 (n / 512 + 1)] := by
  have hline : mmcLine n = ascii "mmc erase 0x0 0x109800 && mmc write 0x88000000 0x0" ++ 32 :: hex (n / 512 + 1) := by
    have htext : ascii "mmc erase 0x0 0x109800 && mmc write 0x88000000 0x0 0x" =
        ascii "mmc erase 0x0 0x109800 && mmc write 0x88000000 0x0" ++ [32, 48, 120] := by decide
    rw [mmcLine, htext, List.append_assoc]
    rfl
  have hprefix : words (ascii "mmc erase 0x0 0x109800 && mmc write 0x88000000 0x0") =
      [ascii "mmc", ascii "erase", ascii "0x0", ascii "0x109800"] ++ ascii "&&" ::
        [ascii "mmc", ascii "write", ascii "0x88000000", ascii "0x0"] := by decide
  have hnil : mmcLine n ≠ [] := by simp [mmcLine, numeral_ne_nil]
  have hlt : n / 512 + 1 < 2 ^ 32 := by omega
  have hwords : words (mmcLine n) = [ascii "mmc", ascii "erase", ascii "0x0", ascii "0x109800"] ++ ascii "&&" ::
      [ascii "mmc", ascii "write", ascii "0x88000000", ascii "0x0", hex (n / 512 + 1)] := by
    rw [hline, words_append, hprefix, words_hex, List.append_assoc]
    rfl
  rw [runCommand, if_neg hnil, hwords, List.splitOn_append_cons_self, List.splitOn_eq_singleton (by decide),
    List.splitOn_eq_singleton]
  · have herase : parseCmd [ascii "mmc", ascii "erase", ascii "0x0", ascii "0x109800"] = .erase .mmc 0 0x109800 := by
      decide
    have hmmc : devOf (ascii "mmc") = some .mmc := by decide
    have haddr : hexArg (ascii "0x88000000") = 0x88000000 := by decide
    have hzero : hexArg (ascii "0x0") = 0 := by decide
    have hvar : hasVar [ascii "mmc", ascii "write", ascii "0x88000000", ascii "0x0", hex (n / 512 + 1)] = false := rfl
    refine runList_cons rfl ?_ (runList_cons rfl ?_ rfl)
    · rw [runPipeReal, if_neg (by decide), cmdProcess, herase]
      simp
    · rw [runPipeReal, hvar, if_neg Bool.false_ne_true, cmdProcess]
      · simp only [parseCmd, hmmc, if_true, haddr, hzero, hex, hexArg_hex, Nat.mod_eq_of_lt hlt]
      · simp
  · simp only [List.mem_cons, List.not_mem_nil, or_false, not_or]
    exact ⟨by decide, by decide, by decide, by decide, amp_ne_hex⟩

/-! ## The script of an image -/

/-- The command `source $imgaddr:script` when the line has set `imgaddr`: the value in the environment counts, and it is
read again. None after a syntax error. -/
def sourceCmds (env : Vars) : List Cmd :=
  let imgaddr := (env (ascii "imgaddr")).getD (ascii "0x88000000")
  match reread ((imgaddr ++ ascii ":script").map fun c => if c = 10 then 32 else c) with
  | some argv => [.other (ascii "source" :: argv)]
  | none => []

theorem parseCmd_source (argv : List Word) : parseCmd (ascii "source" :: argv) = .other (ascii "source" :: argv) := by
  have hdev : devOf (ascii "source") = none := by decide
  unfold parseCmd
  split
  next heq =>
    obtain ⟨rfl, rfl⟩ := List.cons.inj heq
    rw [hdev]
  next heq =>
    obtain ⟨rfl, rfl⟩ := List.cons.inj heq
    rw [hdev]
  next => rfl

theorem lookupParam_setLocalVar (name value : Word) :
    (sh.setLocalVar name value).lookupParam name = some ((sh.env name).getD value) := by
  rw [Shell.setLocalVar]
  cases henv : sh.env name with
  | some v => rw [Option.isSome_some, if_pos rfl, Shell.lookupParam, henv, Option.some_or, Option.getD_some]
  | none =>
      rw [Option.isSome_none, if_neg Bool.false_ne_true, Shell.lookupParam]
      dsimp only
      rw [henv, Option.none_or, Function.update_self, Option.getD_none]

/-- The last command of the line. -/
theorem runPipeReal_source (sh : Shell) :
    runPipeReal exec (sh.setLocalVar (ascii "imgaddr") (ascii "0x88000000")) [ascii "source", ascii "$imgaddr:script"] =
      (sourceCmds sh.env, (sourceCmds sh.env).all exec) := by
  have htext : ascii "$imgaddr:script" = 36 :: ascii "imgaddr:script" := by decide
  have hname : (ascii "imgaddr:script").takeWhile isName = ascii "imgaddr" := by decide
  have hrest : (ascii "imgaddr:script").dropWhile isName = ascii ":script" := by decide
  have hsource : Plain (ascii "source") := by decide
  have hjoin : ∀ b, [32].intercalate [ascii "source", b] = ascii "source" ++ 32 :: [32].intercalate [b] := fun _ => rfl
  have hfirst : ∀ sh : Shell, sh.insertVarValue (ascii "source") = ascii "source" := fun _ => rfl
  rw [runPipeReal, if_pos (by decide), Shell.makeString, List.map_cons, List.map_cons, List.map_nil, hfirst, hjoin,
    List.intercalate_singleton, reread_cons hsource, htext, Shell.insertVarValue, hname, hrest, lookupParam_setLocalVar,
    Option.getD_some, sourceCmds]
  split
  next argv heq =>
    obtain ⟨rest, hread, rfl⟩ := Option.map_eq_some_iff.mp heq
    rw [hread, cmdProcess, parseCmd_source]
    · simp
    · simp
  next heq =>
    rw [Option.map_eq_none_iff.mp heq]
    rfl

theorem runCommand_script :
    runCommand exec sh scriptLine = runAll exec (.other [ascii "sf", ascii "probe"] :: sourceCmds sh.env) := by
  have hwords : (words scriptLine).splitOn (ascii "&&") =
      [[ascii "sf", ascii "probe"], [ascii "imgaddr=0x88000000"], [ascii "source", ascii "$imgaddr:script"]] := by
    decide
  have hset : assignment [ascii "imgaddr=0x88000000"] = some (ascii "imgaddr", ascii "0x88000000") := by
    decide
  have hsource : assignment [ascii "source", ascii "$imgaddr:script"] = none := rfl
  rw [runCommand, if_neg (by decide), hwords]
  refine runList_cons rfl ?_ ?_
  · rw [runPipeReal, if_neg (by decide)]
    rfl
  rw [runList, hset]
  dsimp only
  rw [runList, hsource]
  dsimp only
  rw [runPipeReal_source, runList, List.append_nil, sourceCmds]
  dsimp only
  split
  next argv =>
    rw [runAll, runAll, List.all_cons, List.all_nil, Bool.and_true]
    split <;> simp_all
  next => rfl

end

end Uboot.Upgrade
