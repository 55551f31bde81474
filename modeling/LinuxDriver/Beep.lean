import LinuxDriver.Holding

namespace LinuxDriver.Beep

open Holding

def requestDevNum : BitVec 32 := 1

def mkdev (ma mi : BitVec 32) : BitVec 32 := ma <<< 20 ||| mi

def major (dev : BitVec 32) : BitVec 32 := dev >>> 20

def minor (dev : BitVec 32) : BitVec 32 := dev &&& 0xfffff

inductive Resource
  | mapping (addr : Nat)
  | region (first count : BitVec 32)
  | block (addr : Nat)
  | cdev (dev : Nat)
  | myclass
  | node (dev : BitVec 32)
deriving DecidableEq

structure State where
  devMajorNum : BitVec 32
  devMinorNum : BitVec 32
  devNum : BitVec 32
  virtAddr : Option Nat
  virtAddrGpio : Option Nat
  pMyCharDev : Option Nat
  data : Option Nat
  cdevDev : BitVec 32
  holding : Resources Resource

def State.init (devMajorNum devMinorNum : BitVec 32) : State :=
  ⟨devMajorNum, devMinorNum, 0, none, none, none, none, 0, Resources.empty⟩

/-- How the kernel answers the calls of one `beep_probe`: the addresses it gives,
or NULL, and the return values, with the number that `alloc_chrdev_region` picks. -/
structure Outcome where
  pwm : Option Nat
  gpio : Option Nat
  register : Int
  alloc : Int
  allocDev : BitVec 32
  kmallocDev : Option Nat
  kmallocData : Option Nat
  cdevAdd : Int
  register_le : register ≤ 0
  alloc_le : alloc ≤ 0

def State.acquire (s : State) (r : Resource) : State := { s with holding := s.holding.acquire r }

def State.release (s : State) (r : Resource) : State := { s with holding := s.holding.release r }

@[simp]
theorem release_holding (s : State) (r : Resource) :
    (s.release r).holding = s.holding.release r := rfl

@[simp]
theorem release_devNum (s : State) (r : Resource) : (s.release r).devNum = s.devNum := rfl

@[simp]
theorem release_pMyCharDev (s : State) (r : Resource) :
    (s.release r).pMyCharDev = s.pMyCharDev := rfl

@[simp]
theorem release_data (s : State) (r : Resource) : (s.release r).data = s.data := rfl

def State.misuse (s : State) : State := { s with holding := { s.holding with misused := true } }

def iounmap (addr : Option Nat) (s : State) : State :=
  match addr with
  | none => s.misuse
  | some a => s.release (.mapping a)

def kfree (addr : Option Nat) (s : State) : State :=
  match addr with
  | none => s
  | some a => s.release (.block a)

def cdevDel (dev : Option Nat) (s : State) : State :=
  match dev with
  | none => s.misuse
  | some p => s.release (.cdev p)

def unregisterChrdevRegion (first count : BitVec 32) (s : State) : State :=
  s.release (.region first count)

def registerChrdevRegion (first count : BitVec 32) (s : State) : State :=
  if count = 0 then s else s.acquire (.region first count)

def mapRegisters (o : Outcome) (s : State) : Bool × State :=
  match o.pwm with
  | none => (true, { s with virtAddr := none })
  | some a =>
    let s := { s with virtAddr := some a }.acquire (.mapping a)
    let s := { s with virtAddrGpio := o.gpio }
    let s := o.gpio.elim s (fun b => s.acquire (.mapping b))
    (s.virtAddr.isNone, s)

def getDevNum (o : Outcome) (s : State) : Bool × State :=
  if s.devMajorNum ≠ 0 then
    let s := { s with devNum := mkdev s.devMajorNum s.devMinorNum }
    if o.register < 0 then (true, s) else (false, registerChrdevRegion s.devNum 0 s)
  else
    let s := if o.alloc < 0 then s
      else registerChrdevRegion o.allocDev requestDevNum { s with devNum := o.allocDev }
    if o.alloc = -1 then (true, s)
    else (false, { s with devMajorNum := major s.devNum, devMinorNum := minor s.devNum })

def regInitCdev (o : Outcome) (dev : Nat) (index : BitVec 32) (s : State) : Bool × State :=
  if o.cdevAdd ≠ 0 then (true, s)
  else
    let devno := mkdev s.devMajorNum (s.devMinorNum + index)
    (false, { s with cdevDev := devno }.acquire (.cdev dev))

def failKmalloc (s : State) : Int × State := (-1, unregisterChrdevRegion s.devNum s.devNum s)

def failMallocData (s : State) : Int × State := failKmalloc (kfree s.pMyCharDev s)

def failRegisterDev (s : State) : Int × State := failMallocData (kfree s.data s)

def createDev (o : Outcome) (s : State) : Int × State :=
  let s := { s with pMyCharDev := o.kmallocDev }
  match o.kmallocDev with
  | none => failKmalloc s
  | some p =>
    let s := { s with data := o.kmallocData }.acquire (.block p)
    match o.kmallocData with
    | none => failMallocData s
    | some d =>
      let s := s.acquire (.block d)
      let r := regInitCdev o p 0 s
      if r.1 then failRegisterDev r.2
      else (0, (r.2.acquire .myclass).acquire (.node r.2.devNum))

def beepProbe (o : Outcome) (s : State) : Int × State :=
  let r := mapRegisters o s
  if r.1 then (-1, r.2)
  else
    let r := getDevNum o r.2
    if r.1 then (-1, r.2) else createDev o r.2

def fs4412BeepUnmap (s : State) : State := iounmap s.virtAddrGpio (iounmap s.virtAddr s)

def beepRemove (s : State) : State :=
  let s := fs4412BeepUnmap s
  let s := (s.release (.node s.devNum)).release .myclass
  let s := cdevDel s.pMyCharDev s
  let s := kfree s.pMyCharDev (kfree s.data s)
  unregisterChrdevRegion s.devNum requestDevNum s

end LinuxDriver.Beep
