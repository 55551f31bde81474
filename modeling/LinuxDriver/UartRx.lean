import LinuxDriver.UartIrq
import LinuxDriver.UartTermios

namespace LinuxDriver.UartRx

open Runs Uart UartWork UartTermios

variable {k : Nat}

/-- The status of a character that the masks let through, and its flag. -/
def status (read : BitVec 32) (c : RxChar) : BitVec 32 :=
  if c.uerstat &&& uerstatAny ≠ 0 then c.uerstat &&& read else c.uerstat

def flagOf (read : BitVec 32) (c : RxChar) : Flag :=
  if c.uerstat &&& uerstatAny ≠ 0 then errFlag (c.uerstat &&& read) else .normal

/-- The uart core keeps the character for itself. -/
def handled (c : RxChar) : Bool :=
  decide (c.uerstat &&& uerstatBreak ≠ 0) && c.handleBreak || c.handleSysrq

def inserted (read ignore : BitVec 32) (c : RxChar) : List (UInt8 × Flag) :=
  if handled c then []
  else
    (if status read c &&& ignore &&& ~~~uerstatOverrun = 0 then [(c.ch, flagOf read c)] else []) ++
      if status read c &&& ~~~ignore &&& uerstatOverrun ≠ 0 then [(0, .overrun)] else []

theorem uartInsertChar_flip (st overrun : BitVec 32) (ch : UInt8) (flag : Flag) (p : Port k) :
    (uartInsertChar st overrun ch flag p).flip =
      p.flip ++ ((if st &&& p.ignoreStatusMask &&& ~~~overrun = 0 then [(ch, flag)] else []) ++
        if st &&& ~~~p.ignoreStatusMask &&& overrun ≠ 0 then [(0, .overrun)] else []) := by
  have hmask : (insertFlipChar ch flag p).ignoreStatusMask = p.ignoreStatusMask := rfl
  rw [uartInsertChar]
  by_cases hplain : st &&& p.ignoreStatusMask &&& ~~~overrun = 0
  · rw [if_pos hplain, if_pos hplain, hmask]
    by_cases hover : st &&& ~~~p.ignoreStatusMask &&& overrun ≠ 0
    · rw [if_pos hover, if_pos hover, ← List.append_assoc]
      rfl
    · rw [if_neg hover, if_neg hover, List.append_nil]
      rfl
  · rw [if_neg hplain, if_neg hplain, List.nil_append]
    by_cases hover : st &&& ~~~p.ignoreStatusMask &&& overrun ≠ 0
    · rw [if_pos hover, if_pos hover]
      rfl
    · rw [if_neg hover, if_neg hover, List.append_nil]

structure Rx where
  consFlow : Bool
  rxFifo : List RxChar
  flip : List (UInt8 × Flag)
  read : BitVec 32
  ignore : BitVec 32
  count : BitVec 32

def rx (p : Port k) : Rx :=
  ⟨p.consFlow, p.rxFifo, p.flip, p.readStatusMask, p.ignoreStatusMask, p.icount.rx⟩

theorem any_of_break {u : BitVec 32} (h : u &&& uerstatBreak ≠ 0) : u &&& uerstatAny ≠ 0 := by
  intro h0
  refine h ?_
  have hpart : uerstatBreak = uerstatAny &&& uerstatBreak := rfl
  rw [hpart, ← BitVec.and_assoc, h0]
  exact BitVec.zero_and

theorem insertUnlessSysrq_rx (c : RxChar) (uerstat : BitVec 32) (flag : Flag) (p : Port k) :
    rx (insertUnlessSysrq c uerstat flag p) =
      { rx p with
        flip := p.flip ++ if c.handleSysrq then [] else
          (if uerstat &&& p.ignoreStatusMask &&& ~~~uerstatOverrun = 0 then [(c.ch, flag)]
          else []) ++
            if uerstat &&& ~~~p.ignoreStatusMask &&& uerstatOverrun ≠ 0 then [(0, .overrun)]
            else [] } := by
  rw [insertUnlessSysrq]
  split
  · rw [List.append_nil]
    rfl
  · obtain ⟨flip, heq⟩ := uartInsertChar_eq uerstat uerstatOverrun c.ch flag p
    have hflip := uartInsertChar_flip uerstat uerstatOverrun c.ch flag p
    rw [heq] at hflip ⊢
    rw [← hflip]
    rfl

theorem countBreak_rx (u : BitVec 32) (icount : Icount) : (countBreak u icount).rx = icount.rx := by
  rw [countBreak]
  split <;> rfl

theorem countErrors_rx (u : BitVec 32) (icount : Icount) :
    (countErrors u icount).rx = icount.rx := by
  rw [countErrors]
  split <;> split <;> rfl

theorem insertChar_rx (c : RxChar) (p : Port k) :
    rx (insertChar c p) =
      { rx p with
        flip := p.flip ++ inserted p.readStatusMask p.ignoreStatusMask c
        count := p.icount.rx + 1 } := by
  rw [insertChar, inserted, handled, status, flagOf]
  dsimp only
  by_cases hany : c.uerstat &&& uerstatAny ≠ 0
  · rw [if_pos hany, if_pos hany, if_pos hany]
    by_cases hbrk : c.uerstat &&& uerstatBreak ≠ 0 ∧ c.handleBreak = true
    · have hkeep : (decide (c.uerstat &&& uerstatBreak ≠ 0) && c.handleBreak || c.handleSysrq) =
          true := by
        rw [decide_eq_true hbrk.1, hbrk.2]
        rfl
      rw [if_pos hbrk, if_pos hkeep, List.append_nil]
      simp only [rx, countBreak_rx]
    · have hpass : (decide (c.uerstat &&& uerstatBreak ≠ 0) && c.handleBreak || c.handleSysrq) =
          c.handleSysrq := by
        have hno : (decide (c.uerstat &&& uerstatBreak ≠ 0) && c.handleBreak) = false :=
          Bool.eq_false_of_not_eq_true
            (fun h => hbrk ((Bool.and_eq_true_iff.mp h).imp_left of_decide_eq_true))
        rw [hno, Bool.false_or]
      rw [if_neg hbrk, insertUnlessSysrq_rx, hpass]
      simp only [rx, countErrors_rx, countBreak_rx]
  · have hpass : (decide (c.uerstat &&& uerstatBreak ≠ 0) && c.handleBreak || c.handleSysrq) =
        c.handleSysrq := by
      rw [decide_eq_false (fun h => hany (any_of_break h)), Bool.false_and, Bool.false_or]
    rw [if_neg hany, if_neg hany, if_neg hany, insertUnlessSysrq_rx, hpass]
    rfl

theorem rx_stopTx (p : Port k) : rx (stopTx p) = rx p := by
  rw [stopTx]
  split <;> rfl

theorem rx_startTx (p : Port k) : rx (startTx p) = rx p := by
  rw [startTx]
  split
  · split <;> rfl
  · rfl

theorem rx_uartStart (p : Port k) : rx (uartStart p) = rx p := by
  rw [uartStart]
  split
  · exact rx_startTx p
  · rfl

theorem rx_stopRx (p : Port k) : rx (stopRx p) = rx p := by
  rw [stopRx]
  split <;> rfl

theorem rx_writeUtxh (o : Out) (p : Port k) : rx (writeUtxh o p) = rx p := by
  rw [writeUtxh]
  split <;> rfl

theorem rx_txChars (p : Port k) : rx (txChars p) = rx p := by
  rw [txChars]
  split
  · exact rx_writeUtxh _ p
  · split
    · exact rx_stopTx p
    · rfl

theorem rx_txCharsEnd (p : Port k) : rx (txCharsEnd p) = rx p := by
  rw [txCharsEnd]
  split
  · exact rx_stopTx p
  · rfl

theorem rx_txCharsTurn (n : Nat) (p : Port k) : rx (txCharsTurn n p) = rx p := by
  rw [txCharsTurn]
  split
  · split
    · exact rx_txCharsEnd p
    · exact rx_writeUtxh _ p
  · exact rx_txCharsEnd p

theorem rx_shutdown (p : Port k) : rx (shutdown p) = rx p := by
  rw [shutdown]
  split <;> split <;> rfl

theorem rx_startup (rxRet txRet : Int) (p : Port k) : rx (startup rxRet txRet p).2 = rx p := by
  rw [startup]
  split
  · rfl
  · split
    · exact rx_shutdown _
    · rfl

/-- `q` is `p` after the characters `arr` have come and some of those in the FIFO were
handed to the tty, each once and in order, and counted. -/
def Delivered (p : Rx) (arr : List RxChar) (q : Rx) : Prop :=
  ∃ popped, p.rxFifo ++ arr = popped ++ q.rxFifo ∧
    q = ⟨p.consFlow, q.rxFifo, p.flip ++ popped.flatMap (inserted p.read p.ignore), p.read,
      p.ignore, p.count + BitVec.ofNat 32 popped.length⟩

theorem delivered_refl (p : Rx) : Delivered p [] p :=
  ⟨[], List.append_nil _, by
    rw [List.flatMap_nil, List.append_nil, List.length_nil, BitVec.add_zero]⟩

theorem delivered_trans {p q r : Rx} {arr arr' : List RxChar} (h : Delivered p arr q)
    (h' : Delivered q arr' r) : Delivered p (arr ++ arr') r := by
  obtain ⟨popped, hfifo, hq⟩ := h
  obtain ⟨popped', hfifo', hr⟩ := h'
  refine ⟨popped ++ popped', ?_, ?_⟩
  · rw [← List.append_assoc, hfifo, List.append_assoc, hfifo', List.append_assoc]
  · rw [hr, hq]
    simp only [List.flatMap_append, List.append_assoc, List.length_append, BitVec.ofNat_add,
      BitVec.add_assoc]

/-- Without flow control no turn of the loops but the reading one touches the receiver. -/
theorem turn_delivered {p q : Port k} (hflow : p.consFlow = false)
    (hwait : ∀ n, p.cpu ≠ .rxEnable n) (hturn : turn p = some q) : Delivered (rx p) [] (rx q) := by
  rw [turn] at hturn
  split at hturn
  · cases hturn
  · rename_i n hcpu
    cases hturn
    rw [rx_txCharsTurn]
    exact delivered_refl _
  · rename_i n hcpu
    cases hturn
    rw [rxCharsTurn]
    split
    · exact delivered_refl _
    · split
      · exact delivered_refl _
      · rename_i c cs hcs
        have hfc : flowControl { p with rxFifo := cs, cpu := .rxChars (n - 1) } =
            (true, { p with rxFifo := cs, cpu := .rxChars (n - 1) }) := by
          rw [flowControl, hflow, if_neg Bool.false_ne_true]
        rw [hfc]
        dsimp only
        rw [if_pos rfl, insertChar_rx]
        refine ⟨[c], ?_, ?_⟩
        · rw [List.append_nil]
          exact hcs
        · rw [List.flatMap_singleton]
          rfl
  · rename_i n hcpu
    exact absurd hcpu (hwait n)

/-- Without flow control the driver never waits for the transmitter. -/
structure Plain (p : Port k) : Prop where
  flow : p.consFlow = false
  wait : ∀ n, p.cpu ≠ .rxEnable n

def arrivals (s : Sys k) : List Act → List RxChar
  | [] => []
  | a :: as =>
    match step s a with
    | none => []
    | some t => taken s a ++ arrivals t as
where
  taken (s : Sys k) : Act → List RxChar
    | .receive c =>
      if s.port.rxIrqMode = true ∧ s.port.rxFifo.length < s.port.fifosize then [c] else []
    | _ => []

theorem stopTx_cpu {p : Port k} (hflow : p.consFlow = false) : (stopTx p).cpu = .idle := by
  rw [stopTx]
  split
  · exact if_neg (fun h => Bool.noConfusion (hflow.symm.trans h))
  · rfl

theorem Plain.of_rx {p q : Port k} (h : Plain p) (hrx : rx q = rx p)
    (hcpu : ∀ n, q.cpu ≠ .rxEnable n) : Plain q :=
  ⟨(congrArg Rx.consFlow hrx).trans h.flow, hcpu⟩

theorem idle_ne {c : Cpu} (h : c = .idle) (n : Nat) : c ≠ .rxEnable n :=
  fun heq => Cpu.noConfusion (h.symm.trans heq)

theorem plain_stopTx {p : Port k} (h : Plain p) : Plain (stopTx p) :=
  h.of_rx (rx_stopTx p) (idle_ne (stopTx_cpu h.flow))

theorem plain_txCharsEnd {p : Port k} (h : Plain p) : Plain (txCharsEnd p) := by
  rw [txCharsEnd]
  split
  · exact plain_stopTx h
  · exact ⟨h.flow, fun n heq => Cpu.noConfusion heq⟩

theorem plain_turn {p q : Port k} (h : Plain p) (hturn : turn p = some q) : Plain q := by
  have hdel := turn_delivered h.flow h.wait hturn
  have hflow : q.consFlow = false := by
    obtain ⟨popped, -, heq⟩ := hdel
    exact (congrArg Rx.consFlow heq).trans h.flow
  refine ⟨hflow, ?_⟩
  rw [turn] at hturn
  split at hturn
  · cases hturn
  · rename_i n hcpu
    cases hturn
    rw [txCharsTurn]
    split
    · split
      · exact (plain_txCharsEnd h).wait
      · exact fun m heq => Cpu.noConfusion heq
    · exact (plain_txCharsEnd h).wait
  · rename_i n hcpu
    cases hturn
    intro m heq
    rcases UartIrq.rxCharsTurn_cpu n p with hidle | ⟨hmore, -⟩
    · exact idle_ne hidle m heq
    · exact Cpu.noConfusion (hmore.symm.trans heq)
  · rename_i n hcpu
    exact absurd hcpu (h.wait n)

theorem delivered_of_rx {p q : Port k} (hrx : rx q = rx p) : Delivered (rx p) [] (rx q) :=
  hrx ▸ delivered_refl (rx p)

theorem receive_delivered {p : Port k} {c : RxChar} :
    Delivered (rx p)
      (if p.rxIrqMode = true ∧ p.rxFifo.length < p.fifosize then [c] else [])
      (rx (receive c p)) := by
  rw [receive]
  split
  · refine ⟨[], rfl, ?_⟩
    rw [List.flatMap_nil, List.append_nil, List.length_nil, BitVec.add_zero]
    rfl
  · exact delivered_refl _

theorem step_delivered {s t : Sys k} {a : Act} (h : Plain s.port) (hstep : Step s a t) :
    Delivered (rx s.port) (arrivals.taken s a) (rx t.port) ∧ Plain t.port := by
  cases hstep with
  | @opened rxRet txRet _ hidle =>
    have hrx := rx_startup rxRet txRet { s.port with xmit := clear s.port.xmit, stopped := false }
    have hcpu : (startup rxRet txRet
        { s.port with xmit := clear s.port.xmit, stopped := false }).2.cpu = .idle := by
      rw [startup]
      split
      · exact hidle
      · split
        · exact (UartIrq.shutdown_cpu _).trans hidle
        · exact hidle
    exact ⟨delivered_of_rx hrx, h.of_rx hrx (idle_ne hcpu)⟩
  | closed _ hidle =>
    have hrx := rx_shutdown s.port
    exact ⟨delivered_of_rx hrx,
      h.of_rx hrx (idle_ne ((UartIrq.shutdown_cpu s.port).trans hidle))⟩
  | @wrote cs _ hidle =>
    have hrx := rx_uartStart { s.port with xmit := (fill cs s.port.xmit).2 }
    exact ⟨delivered_of_rx hrx, h.of_rx hrx (idle_ne ((UartIrq.uartStart_cpu _).trans hidle))⟩
  | @requested c _ hidle =>
    rw [sendXchar]
    split
    · have hrx := rx_startTx { s.port with xChar := c }
      exact ⟨delivered_of_rx hrx, h.of_rx hrx (idle_ne ((UartIrq.startTx_cpu _).trans hidle))⟩
    · exact ⟨delivered_refl _, h.flow, h.wait⟩
  | stopped =>
    have hrx := rx_stopTx { s.port with stopped := true }
    exact ⟨delivered_of_rx hrx, h.of_rx hrx (idle_ne (stopTx_cpu h.flow))⟩
  | restarted _ hidle =>
    have hrx := rx_uartStart { s.port with stopped := false }
    exact ⟨delivered_of_rx hrx, h.of_rx hrx (idle_ne ((UartIrq.uartStart_cpu _).trans hidle))⟩
  | muted _ hidle =>
    have hrx := rx_stopRx s.port
    exact ⟨delivered_of_rx hrx,
      h.of_rx hrx (idle_ne ((UartIrq.stopRx_cpu s.port).trans hidle))⟩
  | called => exact ⟨delivered_refl _, h⟩
  | @put c _ _ hidle hroom =>
    have hrx := rx_writeUtxh (.console c) s.port
    refine ⟨delivered_of_rx hrx, h.of_rx hrx (idle_ne ?_)⟩
    rw [UartTx.writeUtxh_room hroom]
    exact hidle
  | sending hready =>
    have hrx := rx_txChars s.port
    refine ⟨delivered_of_rx hrx, h.of_rx hrx ?_⟩
    rw [txChars]
    split
    · rw [UartTx.writeUtxh_room hready.2.2]
      exact h.wait
    · split
      · exact idle_ne (stopTx_cpu h.flow)
      · exact fun n heq => Cpu.noConfusion heq
  | reading => exact ⟨delivered_refl _, h.flow, fun n heq => Cpu.noConfusion heq⟩
  | turned hturn => exact ⟨turn_delivered h.flow h.wait hturn, plain_turn h hturn⟩
  | shifted => exact ⟨delivered_refl _, h.flow, h.wait⟩
  | received =>
    refine ⟨receive_delivered, ?_⟩
    rw [receive]
    split
    · exact ⟨h.flow, h.wait⟩
    · exact h

theorem run_delivered {s t : Sys k} {as : List Act} (h : Plain s.port)
    (hrun : run step s as = some t) : Delivered (rx s.port) (arrivals s as) (rx t.port) := by
  induction as generalizing s with
  | nil =>
    cases hrun
    exact delivered_refl _
  | cons a as ih =>
    obtain ⟨u, hu, hrest⟩ := run_cons hrun
    obtain ⟨hone, hplain⟩ := step_delivered h (step_spec hu)
    have hmany := ih hplain hrest
    have harr : arrivals s (a :: as) = arrivals.taken s a ++ arrivals u as := by
      rw [arrivals, hu]
    rw [harr]
    exact delivered_trans hone hmany

variable {buf : Nat → UInt8} {fifosize : Nat} {read ignore : BitVec 32}

/-- The status register has only the four bits of its errors. -/
def FourBits (c : RxChar) : Prop := c.uerstat &&& 0xf = c.uerstat

instance (c : RxChar) : Decidable (FourBits c) := inferInstanceAs (Decidable (_ = _))

theorem status_and_flag {c : RxChar} (hc : FourBits c) (read : BitVec 32) {flag : BitVec 32}
    (hflag : 0xf &&& flag = 0#32) : status read c &&& flag = 0#32 := by
  have hzero : c.uerstat &&& flag = 0#32 := by
    rw [← hc, BitVec.and_assoc, hflag]
    exact BitVec.and_zero
  rw [status]
  split
  · rw [BitVec.and_assoc, BitVec.and_comm read flag, ← BitVec.and_assoc, hzero]
    exact BitVec.zero_and
  · exact hzero

/-- The flag that is to have every character ignored is no bit of the status. -/
theorem inserted_dummy {c : RxChar} (hc : FourBits c) (read ignore : BitVec 32) :
    inserted read (ignore ||| rxstatDummyRead) c = inserted read ignore c := by
  have hplain : status read c &&& (ignore ||| rxstatDummyRead) &&& ~~~uerstatOverrun =
      status read c &&& ignore &&& ~~~uerstatOverrun := by
    rw [BitVec.and_or_distrib_left, status_and_flag hc read (rfl : 0xf &&& rxstatDummyRead = 0#32),
      BitVec.or_zero]
  have hover : status read c &&& ~~~(ignore ||| rxstatDummyRead) &&& uerstatOverrun =
      status read c &&& ~~~ignore &&& uerstatOverrun := by
    have hkeep : ~~~rxstatDummyRead &&& uerstatOverrun = uerstatOverrun := rfl
    rw [BitVec.not_or, ← BitVec.and_assoc, BitVec.and_assoc _ (~~~rxstatDummyRead), hkeep]
  rw [inserted, inserted, hplain, hover]

theorem ignoreMask_cread (cflag iflag : BitVec 32) :
    ignoreMask cflag iflag = ignoreMask (cflag ||| cread) iflag ∨
      ignoreMask cflag iflag = ignoreMask (cflag ||| cread) iflag ||| rxstatDummyRead := by
  have hset : ¬ (cflag ||| cread) &&& cread = 0#32 := by
    intro h0
    have hbit := congrArg (fun x => x.getLsbD 7) h0
    rw [BitVec.getLsbD_and, BitVec.getLsbD_or] at hbit
    have hcread : cread.getLsbD 7 = true := rfl
    rw [hcread, Bool.or_true] at hbit
    exact Bool.noConfusion hbit
  rw [ignoreMask, ignoreMask, if_neg hset]
  split
  · exact Or.inr rfl
  · exact Or.inl rfl

theorem inserted_cread {c : RxChar} (hc : FourBits c) (cflag iflag read : BitVec 32) :
    inserted read (ignoreMask cflag iflag) c =
      inserted read (ignoreMask (cflag ||| cread) iflag) c := by
  rcases ignoreMask_cread cflag iflag with h | h
  · rw [h]
  · rw [h, inserted_dummy hc]

theorem flagOf_ne_parity {c : RxChar} (hc : FourBits c) (read : BitVec 32) :
    flagOf read c ≠ .parity := by
  have hstatus := status_and_flag hc read (rfl : 0xf &&& uerstatParity = 0#32)
  rw [status] at hstatus
  rw [flagOf]
  split
  · rename_i hany
    rw [if_pos hany] at hstatus
    rw [errFlag]
    split
    · exact nofun
    · rw [if_neg (fun h => h hstatus)]
      split
      · exact nofun
      · exact nofun
  · exact nofun

theorem inserted_ne_parity {read ignore : BitVec 32} {c : RxChar} (hc : FourBits c)
    {x : UInt8 × Flag} (hx : x ∈ inserted read ignore c) : x.2 ≠ .parity := by
  rw [inserted] at hx
  split at hx
  · cases hx
  · rw [List.mem_append] at hx
    rcases hx with hx | hx
    · split at hx
      · rw [List.mem_singleton.mp hx]
        exact flagOf_ne_parity hc read
      · cases hx
    · split at hx
      · rw [List.mem_singleton.mp hx]
        exact nofun
      · cases hx

/-- A port whose termios has switched its receiver off gets every character that it
would get with the receiver on, and none ever comes with the flag of a parity error,
whether or not the termios asks for it. -/
theorem cread_without_effect {cflag iflag : BitVec 32} {as : List Act} {t : Sys k}
    (hrun : run step (start (k := k) buf fifosize false (readMask iflag)
      (ignoreMask cflag iflag)) as = some t)
    (hbits : ∀ c ∈ arrivals (start (k := k) buf fifosize false (readMask iflag)
      (ignoreMask cflag iflag)) as, FourBits c) :
    (∃ popped, arrivals (start (k := k) buf fifosize false (readMask iflag)
          (ignoreMask cflag iflag)) as = popped ++ t.port.rxFifo ∧
        t.port.flip =
          popped.flatMap (inserted (readMask iflag) (ignoreMask (cflag ||| cread) iflag))) ∧
      ∀ x ∈ t.port.flip, x.2 ≠ .parity := by
  have hplain : Plain (start (k := k) buf fifosize false (readMask iflag)
      (ignoreMask cflag iflag)).port := ⟨rfl, fun n heq => Cpu.noConfusion heq⟩
  obtain ⟨popped, hfifo, heq⟩ := run_delivered hplain hrun
  have harr : ∀ c ∈ popped, FourBits c := by
    intro c hc
    refine hbits c ?_
    have hmem := List.mem_append_left (rx t.port).rxFifo hc
    rwa [← hfifo] at hmem
  have hsame : popped.flatMap (inserted (readMask iflag) (ignoreMask cflag iflag)) =
      popped.flatMap (inserted (readMask iflag) (ignoreMask (cflag ||| cread) iflag)) :=
    List.flatMap_congr (fun c hc => inserted_cread (harr c hc) cflag iflag (readMask iflag))
  have hflip : t.port.flip =
      popped.flatMap (inserted (readMask iflag) (ignoreMask (cflag ||| cread) iflag)) :=
    ((congrArg Rx.flip heq).trans (List.nil_append _)).trans hsame
  refine ⟨⟨popped, hfifo, hflip⟩, fun x hx => ?_⟩
  rw [hflip] at hx
  obtain ⟨c, hc, hin⟩ := List.mem_flatMap.mp hx
  exact inserted_ne_parity (harr c hc) hin

theorem cread_without_effect_one :
    ∃ t : Sys 4, run step (start (fun _ => 0) 16 false (readMask inpck) (ignoreMask 0 inpck))
        [.startup 0 0, .receive (.plain 65 2), .rxIrq, .turn] = some t ∧
      t.port.flip = [(65, .normal)] ∧ ∀ x ∈ t.port.flip, x.2 ≠ .parity :=
  ⟨_, rfl, rfl, (@cread_without_effect 4 (fun _ => 0) 16 0 inpck
    [.startup 0 0, .receive (.plain 65 2), .rxIrq, .turn] _ rfl (by decide)).2⟩

end LinuxDriver.UartRx
