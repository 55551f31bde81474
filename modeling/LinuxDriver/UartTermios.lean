import LinuxDriver.Uart
import LinuxDriver.UartBaud

namespace LinuxDriver.UartTermios

open Uart UartBaud

def csize : BitVec 32 := 0x30
def cs5 : BitVec 32 := 0x0
def cs6 : BitVec 32 := 0x10
def cs7 : BitVec 32 := 0x20
def cstopb : BitVec 32 := 0x40
def cread : BitVec 32 := 0x80
def parenb : BitVec 32 := 0x100
def parodd : BitVec 32 := 0x200
def hupcl : BitVec 32 := 0x400
def clocal : BitVec 32 := 0x800
def cmspar : BitVec 32 := 0x40000000
def crtscts : BitVec 32 := 0x80000000
def ignbrk : BitVec 32 := 0x1
def ignpar : BitVec 32 := 0x4
def inpck : BitVec 32 := 0x10

def lconCs5 : BitVec 32 := 0x0
def lconCs6 : BitVec 32 := 0x1
def lconCs7 : BitVec 32 := 0x2
def lconCs8 : BitVec 32 := 0x3
def lconCsmask : BitVec 32 := 0x3
def lconStopb : BitVec 32 := 0x4
def lconPnone : BitVec 32 := 0x0
def lconPodd : BitVec 32 := 0x20
def lconPeven : BitVec 32 := 0x28
def lconPmask : BitVec 32 := 0x38
def lconIrm : BitVec 32 := 0x40

def umcomAfc : BitVec 32 := 0x10

structure Setting where
  cflag : BitVec 32
  ulcon : BitVec 32
  ubrdiv : Nat
  umcon : BitVec 32
  readStatusMask : BitVec 32
  ignoreStatusMask : BitVec 32
deriving DecidableEq

def charSize (cflag : BitVec 32) : BitVec 32 :=
  if cflag &&& csize = cs5 then lconCs5
  else if cflag &&& csize = cs6 then lconCs6
  else if cflag &&& csize = cs7 then lconCs7
  else lconCs8

def ulconOf (cfgUlcon cflag : BitVec 32) : BitVec 32 :=
  let ulcon := charSize cflag ||| (cfgUlcon &&& lconIrm)
  let ulcon := if cflag &&& cstopb ≠ 0#32 then ulcon ||| lconStopb else ulcon
  if cflag &&& parenb ≠ 0#32 then
    if cflag &&& parodd ≠ 0#32 then ulcon ||| lconPodd else ulcon ||| lconPeven
  else ulcon ||| lconPnone

def readMask (iflag : BitVec 32) : BitVec 32 :=
  if iflag &&& inpck ≠ 0#32 then uerstatOverrun ||| (uerstatFrame ||| uerstatParity)
  else uerstatOverrun

def ignoreMask (cflag iflag : BitVec 32) : BitVec 32 :=
  let mask := if iflag &&& ignpar ≠ 0#32 then 0#32 ||| uerstatOverrun else 0#32
  let mask :=
    if iflag &&& ignbrk ≠ 0#32 ∧ iflag &&& ignpar ≠ 0#32 then mask ||| uerstatFrame else mask
  if cflag &&& cread = 0#32 then mask ||| rxstatDummyRead else mask

def quotOf (clkGet : String → Option Nat) (clocks : List Clksrc) (custom : Option Nat)
    (baud : Nat) : Except Fault Nat :=
  match custom with
  | some divisor =>
    if baud = 38400 then .ok divisor else (getclk clkGet clocks baud).map BaudCalc.quot
  | none => (getclk clkGet clocks baud).map BaudCalc.quot

def settings (cfgUlcon cflag iflag : BitVec 32) (quot : Nat) : Setting :=
  let cflag := cflag &&& ~~~(hupcl ||| cmspar)
  let cflag := cflag ||| clocal
  { cflag := cflag
    ulcon := ulconOf cfgUlcon cflag
    ubrdiv := quot
    umcon := if cflag &&& crtscts ≠ 0#32 then umcomAfc else 0#32
    readStatusMask := readMask iflag
    ignoreStatusMask := ignoreMask cflag iflag }

/-- `s3c24xx_serial_set_termios` after `uart_get_baud_rate` has returned `baud`. -/
def setTermios (clkGet : String → Option Nat) (clocks : List Clksrc) (cfgUlcon : BitVec 32)
    (custom : Option Nat) (cflag iflag : BitVec 32) (baud : Nat) : Except Fault Setting :=
  (quotOf clkGet clocks custom baud).map (settings cfgUlcon cflag iflag)

structure Options where
  baud : Nat
  parity : Char
  bits : Nat
deriving DecidableEq

def bitsOf (ulcon : BitVec 32) : Nat :=
  if ulcon &&& lconCsmask = lconCs5 then 5
  else if ulcon &&& lconCsmask = lconCs6 then 6
  else if ulcon &&& lconCsmask = lconCs7 then 7
  else 8

def parityOf (ulcon : BitVec 32) : Char :=
  if ulcon &&& lconPmask = lconPeven then 'e'
  else if ulcon &&& lconPmask = lconPodd then 'o'
  else 'n'

def getOptions (clkGet : String → Option Nat) (ulcon ucon : BitVec 32) (ubrdiv : Nat)
    (old : Options) : Options :=
  if ucon &&& 0xf ≠ 0#32 then
    let rate :=
      match clkGet getsource.name with
      | some rate => rate / getsource.divisor
      | none => 1
    ⟨rate / (16 * ((ubrdiv + 1) % 2 ^ 32) % 2 ^ 32), parityOf ulcon, bitsOf ulcon⟩
  else old

def askedBits (cflag : BitVec 32) : Nat :=
  5 + (cflag.getLsbD 4).toNat + 2 * (cflag.getLsbD 5).toNat

def askedParity (cflag : BitVec 32) : Char :=
  if cflag.getLsbD 8 then if cflag.getLsbD 9 then 'o' else 'e' else 'n'

theorem and_flag (flag : BitVec 32) (i : Nat) (hflag : flag = BitVec.twoPow 32 i)
    (x : BitVec 32) : x &&& flag = if x.getLsbD i then flag else 0#32 := by
  rw [hflag]
  exact BitVec.and_twoPow x i

theorem flag_ne_zero (flag : BitVec 32) (i : Nat) (hflag : flag = BitVec.twoPow 32 i)
    (hne : flag ≠ 0#32) (x : BitVec 32) : x &&& flag ≠ 0#32 ↔ x.getLsbD i = true := by
  rw [and_flag flag i hflag]
  split
  · rename_i h
    exact ⟨fun _ => h, fun _ => hne⟩
  · rename_i h
    exact ⟨fun hno => absurd rfl hno, fun hyes => absurd hyes h⟩

theorem and_csize (cflag : BitVec 32) :
    cflag &&& csize =
      (if cflag.getLsbD 4 then cs6 else 0#32) ||| if cflag.getLsbD 5 then cs7 else 0#32 := by
  have hsplit : csize = cs6 ||| cs7 := rfl
  rw [hsplit, BitVec.and_or_distrib_left, and_flag cs6 4 rfl, and_flag cs7 5 rfl]

def stopBits (cflag : BitVec 32) : BitVec 32 := if cflag.getLsbD 6 then lconStopb else 0#32

def parityBits (cflag : BitVec 32) : BitVec 32 :=
  if cflag.getLsbD 8 then if cflag.getLsbD 9 then lconPodd else lconPeven else lconPnone

theorem ulconOf_eq (cfgUlcon cflag : BitVec 32) :
    ulconOf cfgUlcon cflag =
      charSize cflag ||| (cfgUlcon &&& lconIrm) ||| stopBits cflag ||| parityBits cflag := by
  have hstop := flag_ne_zero cstopb 6 rfl (by decide) cflag
  have hpar := flag_ne_zero parenb 8 rfl (by decide) cflag
  have hodd := flag_ne_zero parodd 9 rfl (by decide) cflag
  rw [ulconOf, stopBits, parityBits]
  simp only [hstop, hpar, hodd]
  cases cflag.getLsbD 6 <;> cases cflag.getLsbD 8 <;> cases cflag.getLsbD 9 <;>
    simp only [if_true, if_false, Bool.false_eq_true, BitVec.or_zero]

theorem irm_and {m : BitVec 32} (cfgUlcon : BitVec 32) (hm : lconIrm &&& m = 0#32) :
    cfgUlcon &&& lconIrm &&& m = 0#32 := by
  rw [BitVec.and_assoc, hm]
  exact BitVec.and_zero

theorem bitsOf_ulcon (cfgUlcon cflag : BitVec 32) :
    bitsOf (ulconOf cfgUlcon cflag) = askedBits cflag := by
  have hstop : stopBits cflag &&& lconCsmask = 0#32 := by
    rw [stopBits]
    split <;> rfl
  have hparity : parityBits cflag &&& lconCsmask = 0#32 := by
    rw [parityBits]
    split
    · split <;> rfl
    · rfl
  have hsize : ulconOf cfgUlcon cflag &&& lconCsmask = charSize cflag &&& lconCsmask := by
    rw [ulconOf_eq, BitVec.and_or_distrib_right, BitVec.and_or_distrib_right,
      BitVec.and_or_distrib_right, irm_and cfgUlcon rfl, hstop, hparity, BitVec.or_zero,
      BitVec.or_zero, BitVec.or_zero]
  rw [bitsOf, hsize, charSize, and_csize, askedBits]
  cases cflag.getLsbD 4 <;> cases cflag.getLsbD 5 <;> rfl

theorem parityOf_ulcon (cfgUlcon cflag : BitVec 32) :
    parityOf (ulconOf cfgUlcon cflag) = askedParity cflag := by
  have hstop : stopBits cflag &&& lconPmask = 0#32 := by
    rw [stopBits]
    split <;> rfl
  have hsize : charSize cflag &&& lconPmask = 0#32 := by
    rw [charSize]
    split
    · rfl
    · split
      · rfl
      · split <;> rfl
  have hparity : ulconOf cfgUlcon cflag &&& lconPmask = parityBits cflag &&& lconPmask := by
    rw [ulconOf_eq, BitVec.and_or_distrib_right, BitVec.and_or_distrib_right,
      BitVec.and_or_distrib_right, irm_and cfgUlcon rfl, hstop, hsize, BitVec.zero_or,
      BitVec.zero_or, BitVec.zero_or]
  rw [parityOf, hparity, parityBits, askedParity]
  cases cflag.getLsbD 8 <;> cases cflag.getLsbD 9 <;> rfl

theorem forced_getLsbD {cflag : BitVec 32} {i : Nat} (hoff : (hupcl ||| cmspar).getLsbD i = false)
    (hon : clocal.getLsbD i = false) (hi : i < 32) :
    (cflag &&& ~~~(hupcl ||| cmspar) ||| clocal).getLsbD i = cflag.getLsbD i := by
  rw [BitVec.getLsbD_or, BitVec.getLsbD_and, BitVec.getLsbD_not, hoff, hon, Bool.or_false,
    decide_eq_true hi, Bool.not_false, Bool.true_and, Bool.and_true]

theorem askedBits_forced (cflag : BitVec 32) :
    askedBits (cflag &&& ~~~(hupcl ||| cmspar) ||| clocal) = askedBits cflag := by
  rw [askedBits, askedBits, forced_getLsbD rfl rfl (by decide), forced_getLsbD rfl rfl (by decide)]

theorem askedParity_forced (cflag : BitVec 32) :
    askedParity (cflag &&& ~~~(hupcl ||| cmspar) ||| clocal) = askedParity cflag := by
  rw [askedParity, askedParity, forced_getLsbD rfl rfl (by decide),
    forced_getLsbD rfl rfl (by decide)]

theorem roundQuot_eq {rate baud : Nat} (hb : baud ≤ 115200 * 8) (hr : rate < 2 ^ 31) :
    roundQuot rate baud = (rate + 8 * baud) / (16 * baud) := by
  rw [roundQuot, Nat.mod_eq_of_lt (by omega), Nat.mod_eq_of_lt (by omega)]

/-- Rounding takes the nearest multiple of the rate. -/
theorem roundQuot_nearest {rate baud : Nat} (hb0 : 0 < baud) (hb : baud ≤ 115200 * 8)
    (hr : rate < 2 ^ 31) (hlow : 8 * baud ≤ rate) :
    1 ≤ roundQuot rate baud ∧ 16 * baud * roundQuot rate baud ≤ rate + 8 * baud ∧
      rate < 16 * baud * roundQuot rate baud + 8 * baud := by
  rw [roundQuot_eq hb hr]
  have hle : 16 * baud * ((rate + 8 * baud) / (16 * baud)) ≤ rate + 8 * baud := Nat.mul_div_le _ _
  have hlt : rate + 8 * baud < 16 * baud * ((rate + 8 * baud) / (16 * baud) + 1) :=
    Nat.lt_mul_div_succ _ (by omega)
  refine ⟨(Nat.le_div_iff_mul_le (by omega)).mpr (by omega), hle, ?_⟩
  rw [Nat.mul_add] at hlt
  omega

/-- The rate `b` is off by at most one part in `2 * q`, up to its own rounding. -/
def Near (q b baud : Nat) : Prop :=
  2 * (q * b) < 2 * (q * baud) + baud ∧ 2 * (q * baud) < 2 * (q * b) + 2 * q + baud

theorem near_roundQuot {rate baud : Nat} (hb0 : 0 < baud) (hb : baud ≤ 115200 * 8)
    (hr : rate < 2 ^ 31) (hlow : 8 * baud ≤ rate) :
    Near (roundQuot rate baud) (rate / (16 * roundQuot rate baud)) baud := by
  obtain ⟨hq, hle, hlt⟩ := roundQuot_nearest hb0 hb hr hlow
  generalize roundQuot rate baud = q at *
  have hdivle : 16 * q * (rate / (16 * q)) ≤ rate := Nat.mul_div_le rate (16 * q)
  have hdivlt : rate < 16 * q * (rate / (16 * q) + 1) := Nat.lt_mul_div_succ rate (by omega)
  generalize rate / (16 * q) = b at *
  rw [Nat.mul_add, Nat.mul_one] at hdivlt
  rw [Nat.mul_assoc] at hdivle hdivlt
  rw [Nat.mul_assoc, Nat.mul_comm baud q] at hle hlt
  exact ⟨by omega, by omega⟩

theorem quotOf_pclk {clkGet : String → Option Nat} {rate baud : Nat} {custom : Option Nat}
    (hclk : clkGet "pclk" = some rate) (hcustom : custom = none ∨ baud ≠ 38400) :
    quotOf clkGet [] custom baud = .ok ((roundQuot rate baud + (2 ^ 32 - 1)) % 2 ^ 32) := by
  have hcalc : (getclk clkGet [] baud).map BaudCalc.quot =
      .ok ((roundQuot rate baud + (2 ^ 32 - 1)) % 2 ^ 32) := by
    have hget : getclk clkGet [] baud = deref (calcbaud clkGet baud tmpClksrc) .unset := rfl
    have hname : clkGet tmpClksrc.name = some rate := hclk
    have hdiv : rate / tmpClksrc.divisor = rate := Nat.div_one rate
    rw [hget, calcbaud, hname, Option.map_some, hdiv]
    rfl
  cases custom with
  | none => exact hcalc
  | some divisor =>
    have hne : baud ≠ 38400 := by
      rcases hcustom with hno | hne
      · cases hno
      · exact hne
    rw [quotOf, if_neg hne]
    exact hcalc

/-- What `s3c24xx_serial_get_options` reads back from the registers of an enabled port
is the format that `s3c24xx_serial_set_termios` was asked for, at a rate that is as near
to the one asked for as the divisor allows. -/
theorem options_round_trip {clkGet : String → Option Nat} {rate baud : Nat}
    {cfgUlcon cflag iflag ucon : BitVec 32} {custom : Option Nat} {old : Options}
    (hclk : clkGet "pclk" = some rate) (hrate : rate < 2 ^ 31) (hb0 : 0 < baud)
    (hb : baud ≤ 115200 * 8) (hlow : 8 * baud ≤ rate) (hcustom : custom = none ∨ baud ≠ 38400)
    (hucon : ucon &&& 0xf ≠ 0#32) :
    ∃ s, setTermios clkGet [] cfgUlcon custom cflag iflag baud = .ok s ∧
      (getOptions clkGet s.ulcon ucon s.ubrdiv old).bits = askedBits cflag ∧
      (getOptions clkGet s.ulcon ucon s.ubrdiv old).parity = askedParity cflag ∧
      Near (s.ubrdiv + 1) (getOptions clkGet s.ulcon ucon s.ubrdiv old).baud baud := by
  obtain ⟨hq, hle, -⟩ := roundQuot_nearest hb0 hb hrate hlow
  have hnear := near_roundQuot hb0 hb hrate hlow
  have hsmall : 16 * roundQuot rate baud < 2 ^ 32 := by
    have hmul : 16 * roundQuot rate baud ≤ 16 * baud * roundQuot rate baud := by
      rw [Nat.mul_assoc]
      exact Nat.mul_le_mul_left 16 (Nat.le_mul_of_pos_left _ hb0)
    omega
  have hubrdiv : (roundQuot rate baud + (2 ^ 32 - 1)) % 2 ^ 32 + 1 = roundQuot rate baud := by
    omega
  refine ⟨settings cfgUlcon cflag iflag ((roundQuot rate baud + (2 ^ 32 - 1)) % 2 ^ 32), ?_, ?_,
    ?_, ?_⟩
  · rw [setTermios, quotOf_pclk hclk hcustom]
    rfl
  · rw [getOptions, if_pos hucon]
    exact (bitsOf_ulcon cfgUlcon _).trans (askedBits_forced cflag)
  · rw [getOptions, if_pos hucon]
    exact (parityOf_ulcon cfgUlcon _).trans (askedParity_forced cflag)
  · have hname : clkGet getsource.name = some rate := hclk
    have hdiv : rate / getsource.divisor = rate := Nat.div_one rate
    have hmod : roundQuot rate baud % 2 ^ 32 = roundQuot rate baud :=
      Nat.mod_eq_of_lt (by omega)
    rw [getOptions, if_pos hucon, settings, hname]
    dsimp only
    rw [hdiv, hubrdiv, hmod, Nat.mod_eq_of_lt hsmall]
    exact hnear

theorem options_round_trip_7o_9600 :
    ∃ s, setTermios (fun _ => some 50000000) [] 0 none 0x320 0 9600 = .ok s ∧
      (getOptions (fun _ => some 50000000) s.ulcon 5 s.ubrdiv ⟨9600, 'n', 8⟩).bits = 7 ∧
      (getOptions (fun _ => some 50000000) s.ulcon 5 s.ubrdiv ⟨9600, 'n', 8⟩).parity = 'o' ∧
      Near (s.ubrdiv + 1)
        (getOptions (fun _ => some 50000000) s.ulcon 5 s.ubrdiv ⟨9600, 'n', 8⟩).baud 9600 :=
  options_round_trip rfl (by decide) (by decide) (by decide) (by decide) (Or.inl rfl) (by decide)

end LinuxDriver.UartTermios
