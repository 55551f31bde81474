import Mathlib.Data.List.MinMax
import Mathlib.Algebra.GroupWithZero.Nat
import Mathlib.Order.Nat

namespace LinuxDriver.UartBaud

def maxClks : Nat := 8

structure Clksrc where
  name : String
  divisor : Nat
deriving DecidableEq

def tmpClksrc : Clksrc := ⟨"pclk", 1⟩

def getsource : Clksrc := ⟨"pclk", 1⟩

structure BaudCalc where
  clksrc : Clksrc
  calculated : Nat
  quot : Nat
deriving DecidableEq

def roundQuot (rate baud : Nat) : Nat := (rate + 8 * baud) % 2 ^ 32 / (16 * baud % 2 ^ 32)

/-- `s3c24xx_serial_calcbaud`, where `clkGet` is `clk_get` with `clk_get_rate`. -/
def calcbaud (clkGet : String → Option Nat) (baud : Nat) (clksrc : Clksrc) : Option BaudCalc :=
  (clkGet clksrc.name).map (fun rate =>
    let rate := rate / clksrc.divisor
    let quot := roundQuot rate baud
    ⟨clksrc, rate / (quot * 16), (quot + (2 ^ 32 - 1)) % 2 ^ 32⟩)

def deviation (baud calculated : Nat) : Nat :=
  (((baud : Int) - calculated).bmod (2 ^ 32)).natAbs

def better (baud : Nat) (best : Option BaudCalc × Nat) (sptr : BaudCalc) :
    Option BaudCalc × Nat :=
  if deviation baud sptr.calculated < best.2 then (some sptr, deviation baud sptr.calculated)
  else best

def select (baud : Nat) (res : List BaudCalc) : Option BaudCalc :=
  (res.foldl (better baud) (none, 2 ^ 31 - 1)).1

/-- Where `s3c24xx_serial_getclk` goes wrong: it uses an entry of `res` that was not
filled in, writes behind the last one, or reads through a null `best`. -/
inductive Fault
  | unset
  | overrun
  | null
deriving DecidableEq

def collect (clkGet : String → Option Nat) (baud : Nat) :
    List Clksrc → List BaudCalc → Except Fault (List BaudCalc)
  | [], res => .ok res
  | clkp :: clocks, res =>
    if maxClks ≤ res.length then .error .overrun
    else collect clkGet baud clocks (res ++ (calcbaud clkGet baud clkp).toList)

def deref (best : Option BaudCalc) (fault : Fault) : Except Fault BaudCalc :=
  best.elim (.error fault) .ok

/-- `s3c24xx_serial_getclk`, whose result is that of the clock it picks. -/
def getclk (clkGet : String → Option Nat) (clocks : List Clksrc) (baud : Nat) :
    Except Fault BaudCalc :=
  if clocks.length < 2 then
    let clkp := clocks.headD tmpClksrc
    let clkp := if clkp.name = "fclk" then { clkp with divisor := getsource.divisor } else clkp
    deref (calcbaud clkGet baud clkp) .unset
  else (collect clkGet baud clocks []).bind (fun res => deref (select baud res) .null)

variable {baud : Nat}

end LinuxDriver.UartBaud
