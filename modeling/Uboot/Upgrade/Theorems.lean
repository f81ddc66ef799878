import Uboot.Upgrade.Lines

/-!
# The two upgrades side by side
-/

namespace Uboot.Upgrade

open Lib Vsprintf

/-! ## What is asked of them -/

/-- Every write lies inside a range that is erased. -/
def Inside (cmds : List Cmd) : Prop :=
  ∀ dev addr off len, Cmd.write dev addr off len ∈ cmds →
    ∃ off' len', Cmd.erase dev off' len' ∈ cmds ∧ off' ≤ off ∧ off + len ≤ off' + len'

def NoErase (cmds : List Cmd) : Prop := ∀ dev off len, Cmd.erase dev off len ∉ cmds

def Outcome.issued (o : Outcome) : List Cmd := (o.line.map Prod.fst).getD []

/-- The demands on one upgrade with an image of `n` bytes for a partition of `limit` bytes. -/
structure Outcome.Safe (o : Outcome) (limit n : Nat) : Prop where
  inside : Inside o.issued
  oversize : limit < n → NoErase o.issued
  zero : o.ret = 0 → o.line.map Prod.snd = some true

/-- Both refuse, or both issue the same commands. -/
def Agree (o o' : Outcome) (limit n : Nat) : Prop :=
  o.line.map Prod.fst = o'.line.map Prod.fst ∧ o.Safe limit n ∧ o'.Safe limit n

/-- The partition for an image, in bytes. In the eMMC it is the range that is erased. -/
def partitionSize (kind : FwType) (machid : Nat) : Nat :=
  match kind with
  | .openwrtEmmc => 0x109800 * 512
  | _ => openwrtFirmwareSize machid

/-- The image has a place on the board, below the limit that holds for it. -/
def Flashable (kind : FwType) (machid n : Nat) : Prop :=
  match kind with
  | .qsdk => True
  | .openwrt =>
      SpiBoard machid ∧ n < openwrtFirmwareSize machid ∨ NandBoard machid ∧ n ≤ openwrtFirmwareSize machid
  | .openwrtEmmc => MmcBoard machid ∧ 0 < n ∧ n < 0x109800 * 512

def flash (select : List Word) (dev : Dev) (start size n : Nat) : List Cmd :=
  [.other select, .erase dev start size, .write dev 0x88000000 start n]

/-- The commands that flash an image. -/
def commands (env : Vars) (kind : FwType) (machid n : Nat) : List Cmd :=
  match kind with
  | .qsdk => .other [ascii "sf", ascii "probe"] :: sourceCmds env
  | .openwrt =>
      if SpiBoard machid then
        flash [ascii "sf", ascii "probe"] .sf (openwrtFirmwareStart machid) (openwrtFirmwareSize machid) n
      else
        flash [ascii "nand", ascii "device", ascii "1"] .nand (openwrtFirmwareStart machid)
          (openwrtFirmwareSize machid) n
  | .openwrtEmmc => [.erase .mmc 0 0x109800, .write .mmc 0x88000000 0 (n / 512 + 1)]

/-! ## What they do -/

section
variable {machid n : Nat} {ram : Nat → UInt8} {exec : Cmd → Bool} {sh : Shell}

theorem firmwareStart_lt : openwrtFirmwareStart machid < 2 ^ 32 := by
  unfold openwrtFirmwareStart
  split <;> decide

theorem firmwareSize_lt : openwrtFirmwareSize machid < 2 ^ 32 := by
  unfold openwrtFirmwareSize
  split
  · decide
  split
  · decide
  split <;> decide

theorem not_spi_of_nand (h : NandBoard machid) : ¬ SpiBoard machid := by
  rcases h with rfl | rfl <;> decide

/-- The line that `do_http_upgrade` runs for a firmware. -/
theorem http_line (hn : n < 2 ^ 32) : (doHttpUpgrade machid ram exec sh n .firmware).line =
    match doCheckoutFirmware ram with
    | .qsdk => some (runAll exec (commands sh.env .qsdk machid n))
    | .openwrt =>
        if SpiBoard machid ∧ openwrtFirmwareSize machid < n then none
        else if SpiBoard machid ∨ NandBoard machid then some (runAll exec (commands sh.env .openwrt machid n))
        else some ([], false)
    | .openwrtEmmc =>
        if MmcBoard machid then some (runAll exec (commands sh.env .openwrtEmmc machid n)) else some ([], false) := by
  have hhex : ascii "0x" ++ numeral 16 n = hex n := rfl
  have hplain : Plain (sh.insertVarValue (hex n)) := by
    rw [insertVarValue_hex]
    exact plain_hex
  have harg : hexArg (sh.insertVarValue (hex n)) = n := by
    rw [insertVarValue_hex, hex, hexArg_hex, Nat.mod_eq_of_lt hn]
  unfold doHttpUpgrade
  dsimp only
  rw [hhex]
  cases doCheckoutFirmware ram with
  | qsdk => exact congrArg some runCommand_script
  | openwrt =>
      by_cases hspi : SpiBoard machid
      · by_cases hlt : openwrtFirmwareSize machid < n
        · simp [hspi, hlt]
        · simp only [hspi, hlt, if_true, if_false, true_and, true_or, commands, flash,
            runCommand_sf lengthArg_hex hplain firmwareStart_lt firmwareSize_lt, harg]
      · by_cases hnand : NandBoard machid
        · simp only [hspi, hnand, if_true, if_false, false_and, or_true, commands, flash,
            runCommand_nand lengthArg_hex hplain firmwareStart_lt firmwareSize_lt, harg]
        · simp [hspi, hnand, runCommand]
  | openwrtEmmc =>
      by_cases hmmc : MmcBoard machid
      · simp only [hmmc, if_true, runCommand_mmc hn, commands]
      · simp [hmmc, runCommand]

theorem http_ret : (doHttpUpgrade machid ram exec sh n .firmware).ret = 0 := by
  simp only [doHttpUpgrade]
  repeat' split
  all_goals rfl

/-- The line that `upgrade` runs. -/
theorem upgrade_line (hn : n < 2 ^ 32) (hsize : sh.env (ascii "filesize") = some (numeralX n)) :
    (upgrade machid ram exec sh).line =
      match doCheckoutFirmware ram with
      | .qsdk => some (runAll exec (commands sh.env .qsdk machid n))
      | .openwrt =>
          if SpiBoard machid ∧ openwrtFirmwareSize machid ≤ n then none
          else if SpiBoard machid ∨ NandBoard machid then some (runAll exec (commands sh.env .openwrt machid n))
          else some ([], false)
      | .openwrtEmmc =>
          if 0 < n then some (runAll exec (commands sh.env .openwrtEmmc machid n)) else some ([], false) := by
  have hread : hex2int (numeralX n) = n := (hex2int_numeralX n).trans (Nat.mod_eq_of_lt hn)
  have hplain : Plain (sh.insertVarValue (ascii "$filesize")) := insertVarValue_filesize hsize ▸ plain_numeralX
  have harg : hexArg (sh.insertVarValue (ascii "$filesize")) = n := by
    rw [insertVarValue_filesize hsize, hexArg_numeralX, Nat.mod_eq_of_lt hn]
  unfold upgrade
  rw [hsize]
  dsimp only
  rw [hread]
  cases doCheckoutFirmware ram with
  | qsdk => exact congrArg some runCommand_script
  | openwrt =>
      by_cases hspi : SpiBoard machid
      · by_cases hle : openwrtFirmwareSize machid ≤ n
        · simp [hspi, hle]
        · simp only [hspi, hle, if_true, if_false, true_and, true_or, commands, flash,
            runCommand_sf lengthArg_filesize hplain firmwareStart_lt firmwareSize_lt, harg]
      · by_cases hnand : NandBoard machid
        · simp only [hspi, hnand, if_true, if_false, false_and, or_true, commands, flash,
            runCommand_nand lengthArg_filesize hplain firmwareStart_lt firmwareSize_lt, harg]
        · simp [hspi, hnand, runCommand]
  | openwrtEmmc =>
      by_cases hpos : 0 < n
      · simp only [hpos, if_true, runCommand_mmc hn, commands]
      · simp [hpos, runCommand]

/-! ## When they agree -/

theorem inside_flash {select : List Word} {dev : Dev} {start size : Nat} (h : n ≤ size) :
    Inside (flash select dev start size n) := by
  intro d addr off len hmem
  simp only [flash, List.mem_cons, reduceCtorEq, Cmd.write.injEq, List.not_mem_nil, or_false, false_or] at hmem
  obtain ⟨rfl, -, rfl, rfl⟩ := hmem
  exact ⟨off, size, by simp [flash], le_rfl, by omega⟩

theorem other_of_source {env : Vars} {c : Cmd} (h : c ∈ sourceCmds env) : ∃ argv, c = .other argv := by
  rw [sourceCmds] at h
  split at h
  next => exact ⟨_, List.mem_singleton.mp h⟩
  next => cases h

theorem inside_commands {kind : FwType} (h : Flashable kind machid n) : Inside (commands sh.env kind machid n) := by
  cases kind with
  | qsdk =>
      intro dev addr off len hmem
      rw [commands, List.mem_cons] at hmem
      obtain ⟨argv, hargv⟩ := other_of_source (hmem.resolve_left (by simp))
      cases hargv
  | openwrt =>
      rcases h with ⟨hspi, hlt⟩ | ⟨hnand, hle⟩
      · rw [commands, if_pos hspi]
        exact inside_flash hlt.le
      · rw [commands, if_neg (not_spi_of_nand hnand)]
        exact inside_flash hle
  | openwrtEmmc =>
      obtain ⟨-, -, hlt⟩ := h
      intro d addr off len hmem
      simp only [commands, List.mem_cons, reduceCtorEq, Cmd.write.injEq, List.not_mem_nil, or_false, false_or] at hmem
      obtain ⟨rfl, -, rfl, rfl⟩ := hmem
      exact ⟨0, 0x109800, by simp [commands], le_rfl, by omega⟩

theorem noErase_commands {kind : FwType} (h : Flashable kind machid n) :
    partitionSize kind machid < n → NoErase (commands sh.env kind machid n) := by
  intro hlt
  cases kind with
  | qsdk =>
      intro dev off len hmem
      rw [commands, List.mem_cons] at hmem
      obtain ⟨argv, hargv⟩ := other_of_source (hmem.resolve_left (by simp))
      cases hargv
  | openwrt =>
      rw [partitionSize] at hlt
      · rcases h with ⟨-, h⟩ | ⟨-, h⟩ <;> omega
      · simp
  | openwrtEmmc =>
      rw [partitionSize] at hlt
      have := h.2.2
      omega

theorem safe_of_line {o : Outcome} {cs : List Cmd} {limit : Nat} (h : o.line = some (cs, true)) (hin : Inside cs)
    (hover : limit < n → NoErase cs) : o.Safe limit n := by
  have hissued : o.issued = cs := by simp [Outcome.issued, h]
  exact ⟨hissued ▸ hin, hissued ▸ hover, fun _ => by simp [h]⟩

/-- A line that succeeded issued all its commands. -/
theorem line_of_ok {o : Outcome} {cs : List Cmd} (h : o.line = some (runAll exec cs))
    (hok : o.line.map Prod.snd = some true) : (∀ c ∈ cs, exec c = true) ∧ o.line = some (cs, true) ∧ o.issued = cs := by
  rw [h, Option.map_some, Option.some.injEq] at hok
  have hall := runAll_ok hok
  rw [runAll_of_ok hall] at h
  exact ⟨hall, h, by simp [Outcome.issued, h]⟩

theorem http_line_of_flashable (hn : n < 2 ^ 32) (h : Flashable (doCheckoutFirmware ram) machid n) :
    (doHttpUpgrade machid ram exec sh n .firmware).line =
      some (runAll exec (commands sh.env (doCheckoutFirmware ram) machid n)) := by
  rw [http_line hn]
  cases hkind : doCheckoutFirmware ram with
  | qsdk => rfl
  | openwrt =>
      rw [hkind] at h
      rcases h with ⟨hspi, hlt⟩ | ⟨hnand, -⟩
      · simp [hspi, hlt.le]
      · simp [hnand, not_spi_of_nand hnand]
  | openwrtEmmc =>
      rw [hkind] at h
      simp [h.1]

theorem upgrade_line_of_flashable (hn : n < 2 ^ 32) (hsize : sh.env (ascii "filesize") = some (numeralX n))
    (h : Flashable (doCheckoutFirmware ram) machid n) :
    (upgrade machid ram exec sh).line = some (runAll exec (commands sh.env (doCheckoutFirmware ram) machid n)) := by
  rw [upgrade_line hn hsize]
  cases hkind : doCheckoutFirmware ram with
  | qsdk => rfl
  | openwrt =>
      rw [hkind] at h
      rcases h with ⟨hspi, hlt⟩ | ⟨hnand, -⟩
      · simp [hspi, hlt]
      · simp [hnand, not_spi_of_nand hnand]
  | openwrtEmmc =>
      rw [hkind] at h
      simp [h.2.1]

/-- The images for which `do_http_upgrade` runs commands. -/
theorem http_line_of_ok (hn : n < 2 ^ 32)
    (hok : (doHttpUpgrade machid ram exec sh n .firmware).line.map Prod.snd = some true) :
    (doHttpUpgrade machid ram exec sh n .firmware).line =
        some (runAll exec (commands sh.env (doCheckoutFirmware ram) machid n)) ∧
      match doCheckoutFirmware ram with
      | .qsdk => True
      | .openwrt => SpiBoard machid ∧ n ≤ openwrtFirmwareSize machid ∨ NandBoard machid
      | .openwrtEmmc => MmcBoard machid := by
  rw [http_line hn] at hok ⊢
  cases hkind : doCheckoutFirmware ram with
  | qsdk => exact ⟨rfl, trivial⟩
  | openwrt =>
      rw [hkind] at hok
      by_cases hspi : SpiBoard machid
      · by_cases hlt : openwrtFirmwareSize machid < n
        · simp [hspi, hlt] at hok
        · simpa [hspi, hlt] using Or.inl (not_lt.mp hlt)
      · by_cases hnand : NandBoard machid
        · simp [hspi, hnand]
        · simp [hspi, hnand] at hok
  | openwrtEmmc =>
      rw [hkind] at hok
      by_cases hmmc : MmcBoard machid
      · simp [hmmc]
      · simp [hmmc] at hok

theorem flashable_of_agree (hn : n < 2 ^ 32) (hsize : sh.env (ascii "filesize") = some (numeralX n))
    (h : Agree (doHttpUpgrade machid ram exec sh n .firmware) (upgrade machid ram exec sh)
      (partitionSize (doCheckoutFirmware ram) machid) n) : Flashable (doCheckoutFirmware ram) machid n := by
  obtain ⟨hsame, hsafe, -⟩ := h
  have hok := hsafe.zero http_ret
  obtain ⟨hrun, hplace⟩ := http_line_of_ok hn hok
  obtain ⟨-, hline, hissued⟩ := line_of_ok hrun hok
  have hover := hsafe.oversize
  have hinside := hsafe.inside
  rw [hissued] at hover hinside
  rw [hline, upgrade_line hn hsize, Option.map_some] at hsame
  cases hkind : doCheckoutFirmware ram with
  | qsdk => trivial
  | openwrt =>
      rw [hkind] at hsame hplace hover
      rcases hplace with ⟨hspi, hle⟩ | hnand
      · refine Or.inl ⟨hspi, lt_of_le_of_ne hle fun heq => ?_⟩
        -- exactly the size of the partition is refused by the other one
        simp [hspi, heq] at hsame
      · refine Or.inr ⟨hnand, not_lt.mp fun hlt => ?_⟩
        have herase : Cmd.erase .nand (openwrtFirmwareStart machid) (openwrtFirmwareSize machid) ∈
            commands sh.env .openwrt machid n := by
          rw [commands, if_neg (not_spi_of_nand hnand)]
          simp [flash]
        exact hover hlt _ _ _ herase
  | openwrtEmmc =>
      rw [hkind] at hsame hplace hover hinside
      have hpos : 0 < n := by
        by_contra hz
        simp [hz, commands] at hsame
      refine ⟨hplace, hpos, not_le.mp fun hge => ?_⟩
      obtain ⟨off, len, hmem, -, hle⟩ := hinside .mmc 0x88000000 0 (n / 512 + 1) (by simp [commands])
      simp only [commands, List.mem_cons, reduceCtorEq, Cmd.erase.injEq, List.not_mem_nil, or_false, true_and] at hmem
      omega

/-- The two upgrades agree and are safe if and only if the image has a place on the board, below the limit that holds for
it, and every command succeeds. -/
theorem agree_iff (hn : n < 2 ^ 32) (hsize : sh.env (ascii "filesize") = some (numeralX n)) :
    Agree (doHttpUpgrade machid ram exec sh n .firmware) (upgrade machid ram exec sh)
        (partitionSize (doCheckoutFirmware ram) machid) n ↔
      Flashable (doCheckoutFirmware ram) machid n ∧
        ∀ c ∈ commands sh.env (doCheckoutFirmware ram) machid n, exec c = true := by
  constructor
  · intro h
    have hflash := flashable_of_agree hn hsize h
    exact ⟨hflash, (line_of_ok (http_line_of_flashable hn hflash) (h.2.1.zero http_ret)).1⟩
  · rintro ⟨hflash, hall⟩
    have hhttp : (doHttpUpgrade machid ram exec sh n .firmware).line = _ := http_line_of_flashable hn hflash
    have hupgrade : (upgrade machid ram exec sh).line = _ := upgrade_line_of_flashable hn hsize hflash
    rw [runAll_of_ok hall] at hhttp hupgrade
    have hin : Inside (commands sh.env (doCheckoutFirmware ram) machid n) := inside_commands hflash
    have hover : partitionSize (doCheckoutFirmware ram) machid < n →
        NoErase (commands sh.env (doCheckoutFirmware ram) machid n) := noErase_commands hflash
    exact ⟨by rw [hhttp, hupgrade], safe_of_line hhttp hin hover, safe_of_line hupgrade hin hover⟩

end

/-- A board with SPI flash and an image of 64 KiB, on a device where every command succeeds. -/
theorem agree_iff_example :
    Agree (doHttpUpgrade MACH_TYPE_IPQ40XX_AP_DK04_1_C1 (fun _ => 0) (fun _ => true)
        ⟨fun _ => some (numeralX 0x10000), fun _ => none⟩ 0x10000 .firmware)
      (upgrade MACH_TYPE_IPQ40XX_AP_DK04_1_C1 (fun _ => 0) (fun _ => true)
        ⟨fun _ => some (numeralX 0x10000), fun _ => none⟩)
      0xe80000 0x10000 :=
  (agree_iff (by decide) rfl).mpr ⟨Or.inl ⟨by decide, by decide⟩, fun _ _ => rfl⟩

/-- An image of exactly the size of the partition is flashed by one and refused by the other. -/
theorem full_image_disagrees :
    ¬ Agree (doHttpUpgrade MACH_TYPE_IPQ40XX_AP_DK04_1_C1 (fun _ => 0) (fun _ => true)
        ⟨fun _ => some (numeralX 0xe80000), fun _ => none⟩ 0xe80000 .firmware)
      (upgrade MACH_TYPE_IPQ40XX_AP_DK04_1_C1 (fun _ => 0) (fun _ => true)
        ⟨fun _ => some (numeralX 0xe80000), fun _ => none⟩)
      (partitionSize .openwrt MACH_TYPE_IPQ40XX_AP_DK04_1_C1) 0xe80000 := by
  rintro ⟨hsame, -⟩
  rw [http_line (by decide), upgrade_line (n := 0xe80000) (by decide) rfl] at hsame
  exact absurd hsame (by decide)

end Uboot.Upgrade
