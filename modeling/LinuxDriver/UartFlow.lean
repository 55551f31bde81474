import LinuxDriver.UartRx

namespace LinuxDriver.UartFlow

open Runs Circ Uart UartWork

variable {k : Nat}

structure Flow where
  consFlow : Bool
  rxIrqMode : Bool
  txEnabled : Bool

def flow (p : Port k) : Flow := ⟨p.consFlow, p.rxIrqMode, p.txEnabled⟩

theorem flow_stopRx (p : Port k) : flow (stopRx p) = flow p := by
  rw [stopRx]
  split <;> rfl

theorem flow_insertChar (c : RxChar) (p : Port k) : flow (insertChar c p) = flow p := by
  obtain ⟨_, _, heq⟩ := insertChar_eq c p
  rw [heq]
  rfl

theorem flow_flowControl (p : Port k) : flow (flowControl p).2 = flow p := by
  rw [flowControl]
  split
  · split
    · split <;> rfl
    · split <;> rfl
  · rfl

theorem flow_rxCharsTurn (maxCount : Nat) (p : Port k) :
    flow (rxCharsTurn maxCount p) = flow p := by
  rw [rxCharsTurn]
  split
  · rfl
  · split
    · rfl
    · dsimp only
      split
      · exact (flow_insertChar _ _).trans (flow_flowControl _)
      · exact flow_flowControl _

/-- The line has one direction at a time: while there is something to send the receiver
is off, and an open port that does not send has it on, once the driver has waited for
the transmitter. -/
structure HalfDuplex (opened : Bool) (p : Port k) : Prop where
  sends : p.xmit.isEmpty = false → p.stopped = false → p.rxIrqMode = false
  listens : opened = true → p.txEnabled = false → (∀ n, p.cpu ≠ .rxEnable n) → p.rxIrqMode = true

/-- What the uart core gives the driver to send finds the line turned round, or a
transmitter that is marked as off. -/
def Turned (s : Sys k) (a : Act) : Prop :=
  s.opened = true → s.port.cpu = .idle → s.port.txEnabled = true → s.port.rxIrqMode = true →
    match a with
    | .write cs => s.port.stopped = false → (fill cs s.port.xmit).2.isEmpty = true
    | .start => s.port.xmit.isEmpty = true
    | _ => True

structure Inv (opened : Bool) (p : Port k) : Prop where
  consFlow : p.consFlow = true
  duplex : HalfDuplex opened p
  wait : ∀ n, p.cpu = .rxEnable n → p.xmit.isEmpty = true ∨ p.stopped = true

variable {opened : Bool} {p q : Port k}

theorem Inv.frame (h : Inv opened p) (hflow : flow q = flow p) (htx : tx q = tx p)
    (hbefore : ∀ n, p.cpu ≠ .rxEnable n) (hafter : ∀ n, q.cpu ≠ .rxEnable n) : Inv opened q where
  consFlow := (congrArg Flow.consFlow hflow).trans h.consFlow
  duplex :=
    { sends := fun hne hgo => by
        have hne' : p.xmit.isEmpty = false :=
          (congrArg (fun t => t.xmit.isEmpty) htx).symm.trans hne
        have hgo' : p.stopped = false := (congrArg Tx.stopped htx).symm.trans hgo
        exact (congrArg Flow.rxIrqMode hflow).trans (h.duplex.sends hne' hgo')
      listens := fun hopen hoff _ =>
        (congrArg Flow.rxIrqMode hflow).trans
          (h.duplex.listens hopen ((congrArg Flow.txEnabled hflow).symm.trans hoff) hbefore) }
  wait n heq := absurd heq (hafter n)

theorem inv_stopTx (h : Inv opened p) (hbefore : ∀ n, p.cpu ≠ .rxEnable n)
    (hquiet : p.xmit.isEmpty = true ∨ p.stopped = true) : Inv opened (stopTx p) := by
  rw [stopTx]
  split
  · have hcpu : (if p.consFlow then Cpu.rxEnable 10000 else .idle) = .rxEnable 10000 :=
      if_pos h.consFlow
    exact ⟨h.consFlow, ⟨h.duplex.sends, fun _ _ hno => absurd hcpu (hno 10000)⟩, fun _ _ => hquiet⟩
  · exact ⟨h.consFlow, ⟨h.duplex.sends, fun hopen hoff _ => h.duplex.listens hopen hoff hbefore⟩,
      fun _ _ => hquiet⟩

theorem startTx_flow (hflow : p.consFlow = true) :
    p.txEnabled = true ∧ startTx p = p ∨ flow (startTx p) = ⟨true, false, true⟩ := by
  rw [startTx]
  cases hon : p.txEnabled with
  | true => exact Or.inl ⟨rfl, rfl⟩
  | false =>
    rw [if_pos hflow]
    exact Or.inr (congrArg (Flow.mk · false true) hflow)

theorem inv_startTx (hflow : p.consFlow = true) (hidle : p.cpu = .idle)
    (hlisten : opened = true → p.txEnabled = false → p.rxIrqMode = true)
    (hturn : p.txEnabled = true → p.xmit.isEmpty = false → p.stopped = false →
      p.rxIrqMode = false) : Inv opened (startTx p) := by
  have hcpu : (startTx p).cpu = .idle := (UartIrq.startTx_cpu p).trans hidle
  rcases startTx_flow hflow with ⟨hon, heq⟩ | hturned
  · rw [heq]
    exact ⟨hflow, ⟨hturn hon, fun hopen hoff _ => hlisten hopen hoff⟩,
      fun n h => absurd h (UartRx.idle_ne hidle n)⟩
  · exact ⟨congrArg Flow.consFlow hturned,
      ⟨fun _ _ => congrArg Flow.rxIrqMode hturned,
        fun _ hoff => Bool.noConfusion ((congrArg Flow.txEnabled hturned).symm.trans hoff)⟩,
      fun n h => absurd h (UartRx.idle_ne hcpu n)⟩

theorem inv_uartStart (hflow : p.consFlow = true) (hidle : p.cpu = .idle)
    (hlisten : opened = true → p.txEnabled = false → p.rxIrqMode = true)
    (hturn : p.txEnabled = true → p.xmit.isEmpty = false → p.stopped = false →
      p.rxIrqMode = false) : Inv opened (uartStart p) := by
  rw [uartStart]
  split
  · exact inv_startTx hflow hidle hlisten hturn
  · rename_i hquiet
    refine ⟨hflow, ⟨fun hne hgo => absurd ?_ hquiet, fun hopen hoff _ => hlisten hopen hoff⟩,
      fun n h => absurd h (UartRx.idle_ne hidle n)⟩
    rw [hne, hgo]
    rfl

theorem inv_txCharsEnd (h : Inv opened p) (hbefore : ∀ n, p.cpu ≠ .rxEnable n) :
    Inv opened (txCharsEnd p) := by
  rw [txCharsEnd]
  split
  · rename_i hempty
    exact inv_stopTx h hbefore (Or.inl hempty)
  · exact h.frame rfl rfl hbefore (fun n => Cpu.noConfusion)

theorem inv_txCharsTurn (h : Inv opened p) (m : Nat) (hbefore : ∀ n, p.cpu ≠ .rxEnable n) :
    Inv opened (txCharsTurn m p) := by
  rw [txCharsTurn]
  split
  · rename_i hmore
    split
    · exact inv_txCharsEnd h hbefore
    · rename_i hfull
      rw [UartTx.writeUtxh_room (Nat.not_le.mp hfull)]
      exact ⟨h.consFlow,
        ⟨fun _ hgo => h.duplex.sends hmore.1 hgo,
          fun hopen hoff _ => h.duplex.listens hopen hoff hbefore⟩,
        fun n heq => Cpu.noConfusion heq⟩
  · exact inv_txCharsEnd h hbefore

theorem inv_txChars (h : Inv opened p) (hready : TxReady p) : Inv opened (txChars p) := by
  obtain ⟨hidle, -, hroom⟩ := hready
  have hbefore := UartRx.idle_ne hidle
  rw [txChars]
  split
  · rw [UartTx.writeUtxh_room hroom]
    exact ⟨h.consFlow, ⟨h.duplex.sends, h.duplex.listens⟩, h.wait⟩
  · split
    · rename_i hquiet
      exact inv_stopTx h hbefore (Bool.or_eq_true_iff.mp hquiet)
    · exact h.frame rfl rfl hbefore (fun n => Cpu.noConfusion)

theorem inv_rxEnableTurn (h : Inv opened p) {n : Nat} (hcpu : p.cpu = .rxEnable n) :
    Inv opened (rxEnableTurn n p) := by
  have hquiet := h.wait n hcpu
  rw [rxEnableTurn]
  split
  · exact ⟨h.consFlow, ⟨h.duplex.sends, fun _ _ hno => absurd rfl (hno (n - 1))⟩,
      fun _ _ => hquiet⟩
  · refine ⟨h.consFlow, ⟨fun hne hgo => ?_, fun _ _ _ => rfl⟩, fun m heq => Cpu.noConfusion heq⟩
    rcases hquiet with hempty | hstop
    · exact Bool.noConfusion (hempty.symm.trans hne)
    · exact Bool.noConfusion (hstop.symm.trans hgo)

theorem inv_turn (h : Inv opened p) (hturn : turn p = some q) : Inv opened q := by
  rw [turn] at hturn
  split at hturn
  · cases hturn
  · rename_i n hcpu
    cases hturn
    exact inv_txCharsTurn h n (fun m heq => Cpu.noConfusion (hcpu.symm.trans heq))
  · rename_i n hcpu
    cases hturn
    refine h.frame (flow_rxCharsTurn n _) (tx_rxCharsTurn n _)
      (fun m heq => Cpu.noConfusion (hcpu.symm.trans heq)) (fun m heq => ?_)
    rcases UartIrq.rxCharsTurn_cpu n p with hidle | ⟨hmore, -⟩
    · exact UartRx.idle_ne hidle m heq
    · exact Cpu.noConfusion (hmore.symm.trans heq)
  · rename_i n hcpu
    cases hturn
    exact inv_rxEnableTurn h hcpu

theorem inv_of_clear (hflow : p.consFlow = true) (hempty : p.xmit.isEmpty = true)
    (hidle : p.cpu = .idle) (hon : opened = true → p.txEnabled = true) : Inv opened p where
  consFlow := hflow
  duplex :=
    { sends := fun hne => Bool.noConfusion (hempty.symm.trans hne)
      listens := fun hopen hoff => Bool.noConfusion ((hon hopen).symm.trans hoff) }
  wait n heq := absurd heq (UartRx.idle_ne hidle n)

theorem startup_opens (rxRet txRet : Int) (p : Port k) :
    (startup rxRet txRet p).2.cpu = p.cpu ∧
      ((startup rxRet txRet p).1 = 0 → (startup rxRet txRet p).2.txEnabled = true) := by
  rw [startup]
  split
  · rename_i hrx
    exact ⟨rfl, fun h0 => absurd h0 hrx⟩
  · split
    · rename_i htx
      exact ⟨UartIrq.shutdown_cpu _, fun h0 => absurd h0 htx⟩
    · exact ⟨rfl, fun _ => rfl⟩

theorem inv_close {s : Sys k} (h : Inv s.opened s.port) (hidle : s.port.cpu = .idle) :
    Inv (close s).opened (close s).port :=
  inv_of_clear ((congrArg UartRx.Rx.consFlow (UartRx.rx_shutdown s.port)).trans h.consFlow)
    (clear_isEmpty s.port.xmit) ((UartIrq.shutdown_cpu s.port).trans hidle)
    (fun hopen => Bool.noConfusion hopen)

theorem inv_openPort {s : Sys k} (h : Inv s.opened s.port) (hidle : s.port.cpu = .idle)
    (rxRet txRet : Int) :
    Inv (openPort rxRet txRet s).opened (openPort rxRet txRet s).port := by
  obtain ⟨hcpu, hon⟩ := startup_opens rxRet txRet
    { s.port with xmit := clear s.port.xmit, stopped := false }
  have hrx := UartRx.rx_startup rxRet txRet
    { s.port with xmit := clear s.port.xmit, stopped := false }
  have htx := tx_startup rxRet txRet { s.port with xmit := clear s.port.xmit, stopped := false }
  refine inv_of_clear ((congrArg UartRx.Rx.consFlow hrx).trans h.consFlow) ?_ (hcpu.trans hidle)
    (fun hopen => hon (of_decide_eq_true hopen))
  exact (congrArg (fun t => t.xmit.isEmpty) htx).trans (clear_isEmpty s.port.xmit)

theorem step_inv {s t : Sys k} {a : Act} (h : Inv s.opened s.port) (ha : Turned s a)
    (hstep : Step s a t) : Inv t.opened t.port := by
  have hlisten : s.port.cpu = .idle → s.opened = true → s.port.txEnabled = false →
      s.port.rxIrqMode = true :=
    fun hidle hopen hoff => h.duplex.listens hopen hoff (UartRx.idle_ne hidle)
  cases hstep with
  | opened _ hidle => exact inv_openPort h hidle _ _
  | closed _ hidle => exact inv_close h hidle
  | wrote hopen hidle =>
    refine inv_uartStart h.consFlow hidle (hlisten hidle) (fun hon hne hgo => ?_)
    by_contra hmode
    have hempty := ha hopen hidle hon (Bool.eq_true_of_not_eq_false hmode) hgo
    exact Bool.noConfusion (hempty.symm.trans hne)
  | requested hopen hidle =>
    rw [sendXchar]
    split
    · exact inv_startTx h.consFlow hidle (hlisten hidle) (fun _ => h.duplex.sends)
    · exact ⟨h.consFlow, ⟨h.duplex.sends, h.duplex.listens⟩, h.wait⟩
  | stopped _ hidle =>
    refine inv_stopTx ⟨h.consFlow, ⟨fun _ hgo => Bool.noConfusion hgo, h.duplex.listens⟩,
      fun _ _ => Or.inr rfl⟩ (UartRx.idle_ne hidle) (Or.inr rfl)
  | restarted hopen hidle =>
    refine inv_uartStart h.consFlow hidle (hlisten hidle) (fun hon hne _ => ?_)
    by_contra hmode
    have hempty := ha hopen hidle hon (Bool.eq_true_of_not_eq_false hmode)
    exact Bool.noConfusion (hempty.symm.trans hne)
  | muted _ hidle =>
    exact h.frame (flow_stopRx _) (tx_stopRx _) (UartRx.idle_ne hidle)
      (UartRx.idle_ne ((UartIrq.stopRx_cpu s.port).trans hidle))
  | called => exact h
  | put _ _ hroom =>
    rw [UartTx.writeUtxh_room hroom]
    exact ⟨h.consFlow, ⟨h.duplex.sends, h.duplex.listens⟩, h.wait⟩
  | sending hready => exact inv_txChars h hready
  | reading hready =>
    exact h.frame rfl rfl (UartRx.idle_ne hready.1) (fun n => Cpu.noConfusion)
  | turned hturn => exact inv_turn h hturn
  | shifted => exact ⟨h.consFlow, ⟨h.duplex.sends, h.duplex.listens⟩, h.wait⟩
  | received =>
    rw [receive]
    split
    · exact ⟨h.consFlow, ⟨h.duplex.sends, h.duplex.listens⟩, h.wait⟩
    · exact h

theorem uartStart_not_turned (hon : p.txEnabled = true) (hmode : p.rxIrqMode = true)
    (hne : p.xmit.isEmpty = false) (hgo : p.stopped = false) :
    ¬ HalfDuplex opened (uartStart p) := by
  have hkeep : uartStart p = p := by
    rw [uartStart, startTx, hon]
    exact ite_self p
  rw [hkeep]
  exact fun h => Bool.noConfusion (hmode.symm.trans (h.sends hne hgo))

/-- A write or a restart that finds the transmitter marked as on and the receiver on as
well leaves the receiver on, with something to send. -/
theorem step_not_turned {s : Sys k} {a : Act} (ha : ¬ Turned s a) :
    ∃ t, step s a = some t ∧ ¬ HalfDuplex t.opened t.port := by
  simp only [Turned, not_forall] at ha
  obtain ⟨hopen, hidle, hon, hmode, hmore⟩ := ha
  cases a with
  | write cs =>
    obtain ⟨hgo, hne⟩ := not_forall.mp hmore
    exact ⟨_, if_pos ⟨hopen, hidle⟩,
      uartStart_not_turned hon hmode (Bool.eq_false_of_not_eq_true hne) hgo⟩
  | start =>
    exact ⟨_, if_pos ⟨hopen, hidle⟩,
      uartStart_not_turned hon hmode (Bool.eq_false_of_not_eq_true hmore) rfl⟩
  | _ => exact absurd trivial hmore

variable {buf : Nat → UInt8} {fifosize : Nat} {read ignore : BitVec 32}

/-- With `UPF_CONS_FLOW` the line has one direction at a time in a whole run exactly when
no write and no restart with something to send finds `tx_enabled` set and the receiver
on, as a startup leaves them. -/
theorem half_duplex_iff (as : List Act) :
    Always step (fun s => HalfDuplex s.opened s.port)
        (start (k := k) buf fifosize true read ignore) as ↔
      Meets step Turned (start (k := k) buf fifosize true read ignore) as := by
  have hduplex : ∀ s : Sys k, Inv s.opened s.port → HalfDuplex s.opened s.port :=
    fun _ h => h.duplex
  exact always_iff_meets hduplex (fun _ _ _ h ha hstep => step_inv h ha (step_spec hstep))
    (fun _ _ _ ha => step_not_turned ha) as
    (inv_of_clear rfl (decide_eq_true rfl) rfl (fun hopen => Bool.noConfusion hopen))

structure Ear where
  depth : Nat
  flip : List (UInt8 × Flag)

def ear (p : Port k) : Ear := ⟨p.rxIrq.depth, p.flip⟩

theorem ear_stopTx (p : Port k) : ear (stopTx p) = ear p := by
  rw [stopTx]
  split <;> rfl

theorem ear_startTx (p : Port k) : ear (startTx p) = ear p := by
  rw [startTx]
  split
  · split <;> rfl
  · rfl

theorem ear_uartStart (p : Port k) : ear (uartStart p) = ear p := by
  rw [uartStart]
  split
  · exact ear_startTx p
  · rfl

theorem ear_writeUtxh (o : Out) (p : Port k) : ear (writeUtxh o p) = ear p := by
  rw [writeUtxh]
  split <;> rfl

theorem ear_txChars (p : Port k) : ear (txChars p) = ear p := by
  rw [txChars]
  split
  · exact ear_writeUtxh _ p
  · split
    · exact ear_stopTx p
    · rfl

theorem ear_txCharsEnd (p : Port k) : ear (txCharsEnd p) = ear p := by
  rw [txCharsEnd]
  split
  · exact ear_stopTx p
  · rfl

theorem ear_txCharsTurn (n : Nat) (p : Port k) : ear (txCharsTurn n p) = ear p := by
  rw [txCharsTurn]
  split
  · split
    · exact ear_txCharsEnd p
    · exact ear_writeUtxh _ p
  · exact ear_txCharsEnd p

theorem ear_rxEnableTurn (n : Nat) (p : Port k) : ear (rxEnableTurn n p) = ear p := by
  rw [rxEnableTurn]
  split <;> rfl

theorem ear_shutdown (p : Port k) : ear (shutdown p) = ear p := by
  rw [shutdown]
  split <;> split <;> rfl

structure Deaf (p : Port k) : Prop where
  depth : p.rxIrq.depth ≠ 0
  reading : ∀ n, p.cpu ≠ .rxChars n

theorem Deaf.frame (h : Deaf p) (hear : ear q = ear p) (hcpu : ∀ n, q.cpu ≠ .rxChars n) :
    Deaf q ∧ q.flip = p.flip :=
  ⟨⟨(congrArg Ear.depth hear).trans_ne h.depth, hcpu⟩, congrArg Ear.flip hear⟩

theorem not_reading {c : Cpu} (h : c = .idle) (n : Nat) : c ≠ .rxChars n :=
  fun heq => Cpu.noConfusion (h.symm.trans heq)

theorem stopTx_not_reading (p : Port k) (n : Nat) : (stopTx p).cpu ≠ .rxChars n := by
  rw [stopTx]
  split
  · cases p.consFlow <;> exact fun heq => Cpu.noConfusion heq
  · exact fun heq => Cpu.noConfusion heq

theorem txCharsEnd_not_reading (p : Port k) (n : Nat) : (txCharsEnd p).cpu ≠ .rxChars n := by
  rw [txCharsEnd]
  split
  · exact stopTx_not_reading p n
  · exact fun heq => Cpu.noConfusion heq

theorem turn_deaf (h : Deaf p) (hturn : turn p = some q) : Deaf q ∧ q.flip = p.flip := by
  rw [turn] at hturn
  split at hturn
  · cases hturn
  · rename_i n hcpu
    cases hturn
    refine h.frame (ear_txCharsTurn n p) (fun m => ?_)
    rw [txCharsTurn]
    split
    · split
      · exact txCharsEnd_not_reading p m
      · exact fun heq => Cpu.noConfusion heq
    · exact txCharsEnd_not_reading p m
  · rename_i n hcpu
    exact absurd hcpu (h.reading n)
  · rename_i n hcpu
    cases hturn
    refine h.frame (ear_rxEnableTurn n p) (fun m => ?_)
    rw [rxEnableTurn]
    split <;> exact fun heq => Cpu.noConfusion heq

theorem txChars_deaf (h : Deaf p) (hready : TxReady p) :
    Deaf (txChars p) ∧ (txChars p).flip = p.flip := by
  refine h.frame (ear_txChars p) (fun m => ?_)
  rw [txChars]
  split
  · rw [UartTx.writeUtxh_room hready.2.2]
    exact not_reading hready.1 m
  · split
    · exact stopTx_not_reading p m
    · exact fun heq => Cpu.noConfusion heq

theorem step_deaf {s t : Sys k} {a : Act} (h : Deaf s.port)
    (ha : ∀ rxRet txRet, a ≠ .startup rxRet txRet) (hstep : Step s a t) :
    Deaf t.port ∧ t.port.flip = s.port.flip := by
  cases hstep with
  | opened => exact absurd rfl (ha _ _)
  | closed _ hidle =>
    exact h.frame (ear_shutdown s.port) (not_reading ((UartIrq.shutdown_cpu _).trans hidle))
  | @wrote cs _ hidle =>
    exact h.frame (ear_uartStart { s.port with xmit := (fill cs s.port.xmit).2 })
      (not_reading ((UartIrq.uartStart_cpu _).trans hidle))
  | @requested c _ hidle =>
    rw [sendXchar]
    split
    · exact h.frame (ear_startTx { s.port with xChar := c })
        (not_reading ((UartIrq.startTx_cpu _).trans hidle))
    · exact ⟨⟨h.depth, h.reading⟩, rfl⟩
  | stopped =>
    exact h.frame (ear_stopTx { s.port with stopped := true }) (stopTx_not_reading _)
  | restarted _ hidle =>
    exact h.frame (ear_uartStart { s.port with stopped := false })
      (not_reading ((UartIrq.uartStart_cpu _).trans hidle))
  | muted =>
    dsimp only
    rw [stopRx]
    split
    · exact ⟨⟨Nat.succ_ne_zero _, h.reading⟩, rfl⟩
    · exact ⟨h, rfl⟩
  | called => exact ⟨h, rfl⟩
  | put _ _ hroom =>
    rw [UartTx.writeUtxh_room hroom]
    exact ⟨⟨h.depth, h.reading⟩, rfl⟩
  | sending hready => exact txChars_deaf h hready
  | reading hready =>
    have hlive : s.port.rxIrq.depth = 0 :=
      of_decide_eq_true (Bool.and_eq_true_iff.mp hready.2.1).2
    exact absurd hlive h.depth
  | turned hturn => exact turn_deaf h hturn
  | shifted => exact ⟨⟨h.depth, h.reading⟩, rfl⟩
  | received =>
    rw [receive]
    split
    · exact ⟨⟨h.depth, h.reading⟩, rfl⟩
    · exact ⟨h, rfl⟩

theorem run_deaf {s u : Sys k} {bs : List Act} (h : Deaf s.port)
    (hbs : ∀ rxRet txRet, Act.startup rxRet txRet ∉ bs) (hu : run step s bs = some u) :
    u.port.flip = s.port.flip := by
  have hkeeps : ∀ (t : Sys k) (a : Act) (t' : Sys k),
      Deaf t.port ∧ t.port.flip = s.port.flip → (∀ rxRet txRet, a ≠ .startup rxRet txRet) →
        step t a = some t' → Deaf t'.port ∧ t'.port.flip = s.port.flip := by
    intro t a t' ht ha hstep
    obtain ⟨hdeaf, hflip⟩ := step_deaf ht.1 ha (step_spec hstep)
    exact ⟨hdeaf, hflip.trans ht.2⟩
  have hnone : ∀ a ∈ bs, ∀ rxRet txRet, a ≠ .startup rxRet txRet := by
    rintro a ha rxRet txRet rfl
    exact hbs rxRet txRet ha
  have hmeets : Meets step (fun _ a => ∀ rxRet txRet, a ≠ .startup rxRet txRet) s bs :=
    meets_of_forall_mem hnone s
  exact (run_invariant hkeeps ⟨h, rfl⟩ hmeets hu).2

/-- A `stop_rx` has something to do, or an earlier one has done it. -/
def Hears (p : Port k) : Prop := p.rxEnabled = true ∨ p.rxIrq.depth ≠ 0

theorem hears_stopTx (h : Hears p) : Hears (stopTx p) := by
  rw [stopTx]
  split <;> exact h

theorem hears_startTx (hflow : p.consFlow = false) (h : Hears p) : Hears (startTx p) := by
  rw [startTx, hflow, if_neg Bool.false_ne_true]
  split <;> exact h

theorem hears_uartStart (hflow : p.consFlow = false) (h : Hears p) : Hears (uartStart p) := by
  rw [uartStart]
  split
  · exact hears_startTx hflow h
  · exact h

theorem hears_txCharsEnd (h : Hears p) : Hears (txCharsEnd p) := by
  rw [txCharsEnd]
  split
  · exact hears_stopTx h
  · exact h

theorem hears_writeUtxh (o : Out) (h : Hears p) : Hears (writeUtxh o p) := by
  rw [writeUtxh]
  split <;> exact h

theorem hears_insertChar (c : RxChar) (h : Hears p) : Hears (insertChar c p) := by
  obtain ⟨_, _, heq⟩ := insertChar_eq c p
  rw [heq]
  exact h

theorem hears_rxCharsTurn (hflow : p.consFlow = false) (n : Nat) (h : Hears p) :
    Hears (rxCharsTurn n p) := by
  rw [rxCharsTurn]
  split
  · exact h
  · split
    · exact h
    · rw [flowControl, hflow]
      exact hears_insertChar _ h

theorem hears_turn (hflow : p.consFlow = false) (h : Hears p) (hturn : turn p = some q) :
    Hears q := by
  rw [turn] at hturn
  split at hturn
  · cases hturn
  · cases hturn
    rw [txCharsTurn]
    split
    · split
      · exact hears_txCharsEnd h
      · exact hears_writeUtxh _ h
    · exact hears_txCharsEnd h
  · cases hturn
    exact hears_rxCharsTurn hflow _ h
  · cases hturn
    rw [rxEnableTurn]
    split
    · exact h
    · exact Or.inl rfl

theorem hears_txChars (h : Hears p) : Hears (txChars p) := by
  rw [txChars]
  split
  · exact hears_writeUtxh _ h
  · split
    · exact hears_stopTx h
    · exact h

theorem startup_hears (rxRet txRet : Int) (p : Port k) (h0 : (startup rxRet txRet p).1 = 0) :
    Hears (startup rxRet txRet p).2 := by
  rw [startup] at h0 ⊢
  split at h0
  · rename_i hrx
    exact absurd h0 hrx
  · rename_i hrx
    rw [if_neg hrx]
    split at h0
    · rename_i htx
      exact absurd h0 htx
    · rename_i htx
      rw [if_neg htx]
      exact Or.inl rfl

theorem step_hears {s t : Sys k} {a : Act} (hplain : UartRx.Plain s.port)
    (h : s.opened = true → Hears s.port) (hstep : Step s a t) : t.opened = true → Hears t.port := by
  have hflow := hplain.flow
  cases hstep with
  | opened => exact fun hopen => startup_hears _ _ _ (of_decide_eq_true hopen)
  | closed => exact fun hopen => Bool.noConfusion hopen
  | wrote hopen => exact fun _ => hears_uartStart hflow (h hopen)
  | requested hopen =>
    rw [sendXchar]
    split
    · exact fun _ => hears_startTx hflow (h hopen)
    · exact h
  | stopped hopen => exact fun _ => hears_stopTx (h hopen)
  | restarted hopen => exact fun _ => hears_uartStart hflow (h hopen)
  | muted =>
    dsimp only
    rw [stopRx]
    split
    · exact fun _ => Or.inr (Nat.succ_ne_zero _)
    · exact h
  | called => exact h
  | put => exact fun hopen => hears_writeUtxh _ (h hopen)
  | sending => exact fun hopen => hears_txChars (h hopen)
  | reading => exact h
  | turned hturn => exact fun hopen => hears_turn hflow (h hopen) hturn
  | shifted => exact h
  | received =>
    rw [receive]
    split
    · exact h
    · exact h

theorem run_hears {as : List Act} {s : Sys k}
    (hs : run step (start (k := k) buf fifosize false read ignore) as = some s) :
    s.opened = true → Hears s.port := by
  have hkeeps : ∀ (t : Sys k) (a : Act) (t' : Sys k),
      UartRx.Plain t.port ∧ (t.opened = true → Hears t.port) → True → step t a = some t' →
        UartRx.Plain t'.port ∧ (t'.opened = true → Hears t'.port) :=
    fun _ _ _ h _ hstep =>
      ⟨(UartRx.step_delivered h.1 (step_spec hstep)).2, step_hears h.1 h.2 (step_spec hstep)⟩
  have hplain : UartRx.Plain (start (k := k) buf fifosize false read ignore).port :=
    ⟨rfl, fun _ heq => Cpu.noConfusion heq⟩
  exact (run_invariant hkeeps ⟨hplain, fun hopen => Bool.noConfusion hopen⟩
    (meets_of_forall (fun _ _ => trivial) _ as) hs).2

/-- After a `stop_rx` the tty gets nothing more until the port is opened again, whatever
the line brings and whatever is sent. With flow control this needs that the driver did
not take the receiver for switched off already. -/
theorem stop_rx_honoured {consFlow : Bool} {as bs : List Act} {s t u : Sys k}
    (hs : run step (start (k := k) buf fifosize consFlow read ignore) as = some s)
    (hflow : consFlow = false ∨ s.port.rxEnabled = true) (ht : step s .stopRx = some t)
    (hbs : ∀ rxRet txRet, Act.startup rxRet txRet ∉ bs) (hu : run step t bs = some u) :
    u.port.flip = s.port.flip := by
  obtain ⟨hopen, hidle, rfl⟩ := whenOpen_some ht
  have hhears : Hears s.port := by
    rcases hflow with rfl | hon
    · exact run_hears hs hopen
    · exact Or.inl hon
  have hdeaf : Deaf (stopRx s.port) ∧ (stopRx s.port).flip = s.port.flip := by
    rw [stopRx]
    split
    · exact ⟨⟨Nat.succ_ne_zero _, not_reading hidle⟩, rfl⟩
    · rename_i hoff
      exact ⟨⟨hhears.resolve_left hoff, not_reading hidle⟩, rfl⟩
  exact (run_deaf hdeaf.1 hbs hu).trans hdeaf.2

theorem stop_rx_honoured_one :
    ∃ s t u : Sys 4,
      run step (start (fun _ => 0) 16 false 0 0)
          [.startup 0 0, .receive (.plain 65 0), .rxIrq, .turn, .turn] = some s ∧
        step s .stopRx = some t ∧ run step t [.receive (.plain 66 0)] = some u ∧
        u.port.flip = s.port.flip :=
  ⟨_, _, _, rfl, rfl, rfl,
    @stop_rx_honoured 4 (fun _ => 0) 16 0 0 false
      [.startup 0 0, .receive (.plain 65 0), .rxIrq, .turn, .turn] [.receive (.plain 66 0)] _ _ _
      rfl (Or.inl rfl) rfl (fun _ _ h => by cases h with | tail _ h => cases h) rfl⟩

end LinuxDriver.UartFlow
