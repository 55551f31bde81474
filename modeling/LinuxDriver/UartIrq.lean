import LinuxDriver.UartTx

namespace LinuxDriver.UartIrq

open Runs Circ Uart UartWork

variable {k : Nat}

structure Ctl where
  txEnabled : Bool
  txClaimed : Bool
  rxClaimed : Bool
  txIrq : Irq
  rxInstalled : Bool

def ctl (p : Port k) : Ctl :=
  ⟨p.txEnabled, p.txClaimed, p.rxClaimed, p.txIrq, p.rxIrq.installed⟩

structure Paired (c : Ctl) : Prop where
  warned : c.txIrq.warned = false
  depth : c.txIrq.depth = if c.txEnabled then 0 else 1
  txInstalled : c.txIrq.installed = true
  rxInstalled : c.rxInstalled = true
  txClaimed : c.txClaimed = true
  rxClaimed : c.rxClaimed = true

structure Free (c : Ctl) : Prop where
  warned : c.txIrq.warned = false
  txInstalled : c.txIrq.installed = false
  rxInstalled : c.rxInstalled = false
  txClaimed : c.txClaimed = false
  rxClaimed : c.rxClaimed = false

theorem ctl_rxEnableTurn (count : Nat) (p : Port k) : ctl (rxEnableTurn count p) = ctl p := by
  rw [rxEnableTurn]
  split <;> rfl

theorem ctl_stopRx (p : Port k) : ctl (stopRx p) = ctl p := by
  rw [stopRx]
  split <;> rfl

theorem ctl_insertChar (c : RxChar) (p : Port k) : ctl (insertChar c p) = ctl p := by
  obtain ⟨_, _, heq⟩ := insertChar_eq c p
  rw [heq]
  rfl

theorem ctl_flowControl (p : Port k) : ctl (flowControl p).2 = ctl p := by
  rw [flowControl]
  split
  · split
    · split <;> rfl
    · split <;> rfl
  · rfl

theorem ctl_rxCharsTurn (maxCount : Nat) (p : Port k) : ctl (rxCharsTurn maxCount p) = ctl p := by
  rw [rxCharsTurn]
  split
  · rfl
  · split
    · rfl
    · dsimp only
      split
      · exact (ctl_insertChar _ _).trans (ctl_flowControl _)
      · exact ctl_flowControl _

theorem paired_stopTx {p : Port k} (h : Paired (ctl p)) : Paired (ctl (stopTx p)) := by
  rw [stopTx]
  split
  · rename_i hon
    have hdepth : p.txIrq.depth = if p.txEnabled then 0 else 1 := h.depth
    rw [if_pos hon] at hdepth
    exact ⟨h.warned, congrArg Nat.succ hdepth, h.txInstalled, h.rxInstalled, h.txClaimed,
      h.rxClaimed⟩
  · exact h

theorem paired_startTx {p : Port k} (h : Paired (ctl p)) : Paired (ctl (startTx p)) := by
  rw [startTx]
  split
  · rename_i hoff
    have hdepth : p.txIrq.depth = if p.txEnabled then 0 else 1 := h.depth
    rw [if_neg (fun hon => by rw [hon] at hoff; cases hoff)] at hdepth
    have henable : enableIrq p.txIrq = { p.txIrq with depth := 0 } := by
      rw [enableIrq, hdepth]
      rfl
    split
    · refine ⟨?_, ?_, ?_, h.rxInstalled, h.txClaimed, h.rxClaimed⟩
      · exact (congrArg Irq.warned henable).trans h.warned
      · exact congrArg Irq.depth henable
      · exact (congrArg Irq.installed henable).trans h.txInstalled
    · refine ⟨?_, ?_, ?_, h.rxInstalled, h.txClaimed, h.rxClaimed⟩
      · exact (congrArg Irq.warned henable).trans h.warned
      · exact congrArg Irq.depth henable
      · exact (congrArg Irq.installed henable).trans h.txInstalled
  · exact h

theorem startTx_txEnabled (p : Port k) : (startTx p).txEnabled = true := by
  rw [startTx]
  split
  · split <;> rfl
  · rename_i hon
    exact Bool.eq_true_of_not_eq_false (fun h => hon (by rw [h]; rfl))

theorem startTx_cpu (p : Port k) : (startTx p).cpu = p.cpu := by
  rw [startTx]
  split
  · split <;> rfl
  · rfl

theorem free_shutdown {p : Port k} (h : Paired (ctl p)) : Free (ctl (shutdown p)) := by
  have htx : p.txClaimed = true := h.txClaimed
  have hrx : p.rxClaimed = true := h.rxClaimed
  rw [shutdown, if_pos htx, if_pos hrx]
  exact ⟨h.warned, rfl, rfl, rfl, rfl⟩

theorem startup_free {p : Port k} (h : Free (ctl p)) (rxRet txRet : Int) :
    ((startup rxRet txRet p).1 = 0 ∧ Paired (ctl (startup rxRet txRet p).2) ∧
        (startup rxRet txRet p).2.txEnabled = true) ∨
      ((startup rxRet txRet p).1 ≠ 0 ∧ Free (ctl (startup rxRet txRet p).2)) := by
  have htx : p.txClaimed = false := h.txClaimed
  rw [startup]
  by_cases hrx : rxRet = 0
  · subst hrx
    rw [if_neg (fun h0 => h0 rfl)]
    by_cases h0 : txRet = 0
    · subst h0
      rw [if_neg (fun h0 => h0 rfl)]
      exact Or.inl ⟨rfl, ⟨h.warned, rfl, rfl, rfl, rfl, rfl⟩, rfl⟩
    · have hreq : requestIrq txRet p.txIrq = p.txIrq := if_neg h0
      rw [if_pos h0, hreq]
      refine Or.inr ⟨h0, ?_⟩
      rw [shutdown, htx]
      exact ⟨h.warned, h.txInstalled, rfl, rfl, rfl⟩
  · have hreq : requestIrq rxRet p.rxIrq = p.rxIrq := if_neg hrx
    rw [if_pos hrx, hreq]
    exact Or.inr ⟨hrx, h⟩

def LoopOk (p : Port k) : Prop :=
  match p.cpu with
  | .txChars n =>
    n ≤ 256 ∧ (n = 256 → p.xmit.isEmpty = false ∧ p.txFifo.length < p.fifosize) ∧ p.xChar = 0
  | .rxChars n => n ≤ 64 ∧ (n = 64 → p.rxFifo ≠ [])
  | _ => True

structure Inv (s : Sys k) : Prop where
  opened : s.opened = true → Paired (ctl s.port)
  closed : s.opened = false → Free (ctl s.port) ∧ s.port.cpu = .idle
  enabled : s.opened = true → s.port.stopped = false → s.port.xmit.isEmpty = false →
    s.port.txEnabled = true
  loop : LoopOk s.port

theorem LoopOk.mono {p q : Port k} (h : LoopOk p) (hcpu : q.cpu = p.cpu) (hxmit : q.xmit = p.xmit)
    (hx : q.xChar = p.xChar) (hfifo : p.txFifo.length < p.fifosize → q.txFifo.length < q.fifosize)
    (hrx : p.rxFifo ≠ [] → q.rxFifo ≠ []) : LoopOk q := by
  rw [LoopOk] at h ⊢
  cases hp : p.cpu with
  | idle =>
    rw [hcpu, hp]
    trivial
  | txChars n =>
    rw [hp] at h
    rw [hcpu, hp, hxmit, hx]
    exact ⟨h.1, fun heq => (h.2.1 heq).imp_right hfifo, h.2.2⟩
  | rxChars n =>
    rw [hp] at h
    rw [hcpu, hp]
    exact ⟨h.1, fun heq => hrx (h.2 heq)⟩
  | rxEnable n =>
    rw [hcpu, hp]
    trivial

theorem loopOk_idle {p : Port k} (h : p.cpu = .idle) : LoopOk p := by
  rw [LoopOk, h]
  trivial

theorem loopOk_rxEnable {p : Port k} {n : Nat} (h : p.cpu = .rxEnable n) : LoopOk p := by
  rw [LoopOk, h]
  trivial

theorem loopOk_stopTx (p : Port k) : LoopOk (stopTx p) := by
  rw [stopTx]
  split
  · cases hflow : p.consFlow with
    | false => exact loopOk_idle rfl
    | true => exact loopOk_rxEnable rfl
  · exact loopOk_idle rfl

theorem loopOk_rxEnableTurn (n : Nat) (p : Port k) : LoopOk (rxEnableTurn n p) := by
  rw [rxEnableTurn]
  split
  · exact loopOk_rxEnable rfl
  · exact loopOk_idle rfl

theorem uartStart_cpu (p : Port k) : (uartStart p).cpu = p.cpu := by
  rw [uartStart]
  split
  · exact startTx_cpu p
  · rfl

theorem insertChar_cpu (c : RxChar) (p : Port k) : (insertChar c p).cpu = p.cpu := by
  obtain ⟨_, _, heq⟩ := insertChar_eq c p
  rw [heq]

theorem flowControl_cpu (p : Port k) :
    (flowControl p).2.cpu = p.cpu ∨ (flowControl p).2.cpu = .idle := by
  rw [flowControl]
  split
  · split
    · split
      · exact Or.inl rfl
      · exact Or.inl rfl
    · split
      · exact Or.inr rfl
      · exact Or.inl rfl
  · exact Or.inl rfl

theorem flowControl_inserts {p : Port k} (h : (flowControl p).1 = true) :
    (flowControl p).2 = p := by
  rw [flowControl] at h ⊢
  split at h
  · split at h
    · split at h
      · cases h
      · rename_i hflow hrx hempty
        rw [if_pos hflow, if_pos hrx, if_neg hempty]
    · split at h <;> cases h
  · rename_i hflow
    rw [if_neg hflow]

theorem rxCharsTurn_cpu (n : Nat) (p : Port k) :
    (rxCharsTurn n p).cpu = .idle ∨ (rxCharsTurn n p).cpu = .rxChars (n - 1) ∧ 0 < n := by
  rw [rxCharsTurn]
  split
  · exact Or.inl rfl
  · rename_i hmore
    obtain ⟨hn, hcnt⟩ := not_or.mp hmore
    split
    · rename_i hnil
      exact absurd (by rw [rxFifocnt, hnil]; split <;> simp_all) hcnt
    · dsimp only
      split
      · rename_i hins
        rw [insertChar_cpu, flowControl_inserts hins]
        exact Or.inr ⟨rfl, Nat.pos_of_ne_zero hn⟩
      · exact (flowControl_cpu _).symm.imp_right (fun h => ⟨h, Nat.pos_of_ne_zero hn⟩)

theorem loopOk_rxCharsTurn {n : Nat} (p : Port k) (hn : n ≤ 64) : LoopOk (rxCharsTurn n p) := by
  rcases rxCharsTurn_cpu n p with h | ⟨h, hpos⟩
  · exact loopOk_idle h
  · rw [LoopOk, h]
    exact ⟨by omega, fun heq => by omega⟩

theorem loopOk_txCharsEnd (p : Port k) : LoopOk (txCharsEnd p) := by
  rw [txCharsEnd]
  split
  · exact loopOk_stopTx p
  · exact loopOk_idle rfl

theorem loopOk_txCharsTurn {n : Nat} {p : Port k} (hn : n ≤ 256) (hx : p.xChar = 0) :
    LoopOk (txCharsTurn n p) := by
  rw [txCharsTurn]
  split
  · split
    · exact loopOk_txCharsEnd p
    · rename_i hmore hfull
      rw [UartTx.writeUtxh_room (Nat.not_le.mp hfull)]
      exact ⟨by omega, fun heq => by omega, hx⟩
  · exact loopOk_txCharsEnd p

theorem loopOk_txChars {p : Port k} (hidle : p.cpu = .idle)
    (hroom : p.txFifo.length < p.fifosize) : LoopOk (txChars p) := by
  rw [txChars]
  split
  · rw [UartTx.writeUtxh_room hroom]
    exact loopOk_idle hidle
  · split
    · exact loopOk_stopTx p
    · rename_i hx hbusy
      obtain ⟨hne, -⟩ := not_or.mp (fun h => hbusy (Bool.or_eq_true_iff.mpr h))
      exact ⟨Nat.le_refl 256, fun _ => ⟨Bool.eq_false_of_not_eq_true hne, hroom⟩,
        not_not.mp hx⟩

theorem Inv.frame {s : Sys k} {p : Port k} (h : Inv s) (hctl : ctl p = ctl s.port)
    (htx : tx p = tx s.port) (hcpu : s.opened = false → p.cpu = .idle) (hloop : LoopOk p) :
    Inv { s with port := p } where
  opened hopen := hctl ▸ h.opened hopen
  closed hno := ⟨hctl ▸ (h.closed hno).1, hcpu hno⟩
  enabled hopen hstop hne := by
    have hon : p.txEnabled = s.port.txEnabled := congrArg Ctl.txEnabled hctl
    have hstop' : p.stopped = s.port.stopped := congrArg Tx.stopped htx
    have hxmit : p.xmit = s.port.xmit := congrArg Tx.xmit htx
    dsimp only at hstop hne ⊢
    rw [hon]
    exact h.enabled hopen (hstop' ▸ hstop) (hxmit ▸ hne)
  loop := hloop

theorem inv_of_open {s : Sys k} (hopen : s.opened = true) (hpaired : Paired (ctl s.port))
    (hon : s.port.stopped = false → s.port.xmit.isEmpty = false → s.port.txEnabled = true)
    (hloop : LoopOk s.port) : Inv s where
  opened _ := hpaired
  closed hno := Bool.noConfusion (hopen.symm.trans hno)
  enabled _ := hon
  loop := hloop

theorem paired_uartStart {p : Port k} (h : Paired (ctl p)) : Paired (ctl (uartStart p)) := by
  rw [uartStart]
  split
  · exact paired_startTx h
  · exact h

theorem uartStart_on {p : Port k} (hstop : (uartStart p).stopped = false)
    (hne : (uartStart p).xmit.isEmpty = false) : (uartStart p).txEnabled = true := by
  have htx := tx_uartStart p
  have hstop' : p.stopped = false := (congrArg Tx.stopped htx).symm.trans hstop
  have hne' : p.xmit.isEmpty = false :=
    (congrArg (fun t => t.xmit.isEmpty) htx).symm.trans hne
  have hboth : (!p.xmit.isEmpty && !p.stopped) = true := by rw [hstop', hne']; rfl
  rw [uartStart, if_pos hboth]
  exact startTx_txEnabled p

theorem inv_stopTx {s : Sys k} (hopen : s.opened = true) (h : Paired (ctl s.port))
    (hquiet : s.port.xmit.isEmpty = true ∨ s.port.stopped = true) :
    Inv { s with port := stopTx s.port } := by
  refine inv_of_open hopen (paired_stopTx h) (fun hstop hne => ?_) (loopOk_stopTx _)
  have htx := tx_stopTx s.port
  have hstop' : s.port.stopped = false := (congrArg Tx.stopped htx).symm.trans hstop
  have hne' : s.port.xmit.isEmpty = false :=
    (congrArg (fun t => t.xmit.isEmpty) htx).symm.trans hne
  rcases hquiet with hq | hq
  · exact Bool.noConfusion (hq.symm.trans hne')
  · exact Bool.noConfusion (hq.symm.trans hstop')

theorem inv_txChars {s : Sys k} (h : Inv s) (hready : TxReady s.port) :
    Inv { s with port := txChars s.port } := by
  obtain ⟨hidle, hlive, hroom⟩ := hready
  have hopen : s.opened = true := by
    by_contra hno
    have hfree := (h.closed (Bool.eq_false_of_not_eq_true hno)).1.txInstalled
    rw [Irq.live, Bool.and_eq_true] at hlive
    exact Bool.noConfusion (hlive.1.symm.trans hfree)
  have hloop := loopOk_txChars hidle hroom
  rw [txChars] at hloop ⊢
  split
  · rename_i hx
    rw [if_pos hx] at hloop
    rw [UartTx.writeUtxh_room hroom] at hloop ⊢
    exact inv_of_open hopen (h.opened hopen) (h.enabled hopen) hloop
  · split
    · rename_i hx hquiet
      exact inv_stopTx hopen (h.opened hopen) (Bool.or_eq_true_iff.mp hquiet)
    · rename_i hx hquiet
      rw [if_neg hx, if_neg hquiet] at hloop
      exact inv_of_open hopen (h.opened hopen) (h.enabled hopen) hloop

theorem inv_txCharsEnd {s : Sys k} (hopen : s.opened = true) (h : Inv s) :
    Inv { s with port := txCharsEnd s.port } := by
  rw [txCharsEnd]
  split
  · rename_i hempty
    exact inv_stopTx hopen (h.opened hopen) (Or.inl hempty)
  · exact inv_of_open hopen (h.opened hopen) (h.enabled hopen) (loopOk_idle rfl)

theorem inv_txCharsTurn {s : Sys k} {n : Nat} (h : Inv s) (hopen : s.opened = true)
    (hcpu : s.port.cpu = .txChars n) : Inv { s with port := txCharsTurn n s.port } := by
  have hentered := h.loop
  rw [LoopOk, hcpu] at hentered
  have hloop := loopOk_txCharsTurn hentered.1 hentered.2.2
  rw [txCharsTurn] at hloop ⊢
  split
  · rename_i hmore
    rw [if_pos hmore] at hloop
    split
    · exact inv_txCharsEnd hopen h
    · rename_i hfull
      rw [if_neg hfull] at hloop
      rw [UartTx.writeUtxh_room (Nat.not_le.mp hfull)] at hloop ⊢
      exact inv_of_open hopen (h.opened hopen)
        (fun hstop _ => h.enabled hopen hstop hmore.1) hloop
  · exact inv_txCharsEnd hopen h

theorem inv_turn {s : Sys k} {p : Port k} (h : Inv s) (hturn : turn s.port = some p) :
    Inv { s with port := p } := by
  have hopen : s.opened = true := by
    by_contra hno
    have hidle := (h.closed (Bool.eq_false_of_not_eq_true hno)).2
    rw [turn, hidle] at hturn
    cases hturn
  have hno : s.opened = false → p.cpu = .idle := fun hno => Bool.noConfusion (hopen.symm.trans hno)
  have hloop := h.loop
  rw [turn] at hturn
  split at hturn
  · cases hturn
  · rename_i n hcpu
    cases hturn
    exact inv_txCharsTurn h hopen hcpu
  · rename_i n hcpu
    cases hturn
    rw [LoopOk, hcpu] at hloop
    exact h.frame (ctl_rxCharsTurn n _) (tx_rxCharsTurn n _) hno (loopOk_rxCharsTurn _ hloop.1)
  · rename_i n hcpu
    cases hturn
    exact h.frame (ctl_rxEnableTurn n _) (tx_rxEnableTurn n _) hno (loopOk_rxEnableTurn n _)

theorem shutdown_cpu (p : Port k) : (shutdown p).cpu = p.cpu := by
  rw [shutdown]
  split <;> split <;> rfl

theorem inv_openPort {s : Sys k} (h : Inv s) (hopen : s.opened = false) (rxRet txRet : Int) :
    Inv (openPort rxRet txRet s) := by
  obtain ⟨hfree, hidle⟩ := h.closed hopen
  have hcpu : ∀ p : Port k, p.cpu = .idle → (startup rxRet txRet p).2.cpu = .idle := by
    intro p hp
    rw [startup]
    split
    · exact hp
    · split
      · exact (shutdown_cpu _).trans hp
      · exact hp
  have hstart := startup_free (p := { s.port with xmit := clear s.port.xmit, stopped := false })
    hfree rxRet txRet
  have hidle' := hcpu { s.port with xmit := clear s.port.xmit, stopped := false } hidle
  refine ⟨fun hno => ?_, fun hno => ?_, fun hno _ _ => ?_, loopOk_idle hidle'⟩
  · rcases hstart with ⟨-, hp, -⟩ | ⟨hne, -⟩
    · exact hp
    · exact absurd (of_decide_eq_true hno) hne
  · rcases hstart with ⟨h0, -, -⟩ | ⟨-, hf⟩
    · exact absurd h0 (of_decide_eq_false hno)
    · exact ⟨hf, hidle'⟩
  · rcases hstart with ⟨-, -, hon⟩ | ⟨hne, -⟩
    · exact hon
    · exact absurd (of_decide_eq_true hno) hne

theorem inv_close {s : Sys k} (h : Inv s) (hopen : s.opened = true) (hidle : s.port.cpu = .idle) :
    Inv (close s) := by
  have hcpu : (shutdown s.port).cpu = .idle := (shutdown_cpu s.port).trans hidle
  exact ⟨fun hno => Bool.noConfusion hno, fun _ => ⟨free_shutdown (h.opened hopen), hcpu⟩,
    fun hno => Bool.noConfusion hno, loopOk_idle hcpu⟩

theorem inv_sendXchar {s : Sys k} (h : Inv s) (hopen : s.opened = true)
    (hidle : s.port.cpu = .idle) (c : UInt8) : Inv (sendXchar c s) := by
  rw [sendXchar]
  split
  · have hp : Paired (ctl { s.port with xChar := c }) := h.opened hopen
    exact inv_of_open hopen (paired_startTx hp) (fun _ _ => startTx_txEnabled _)
      (loopOk_idle ((startTx_cpu _).trans hidle))
  · exact inv_of_open hopen (h.opened hopen) (h.enabled hopen) (loopOk_idle hidle)

theorem stopRx_cpu (p : Port k) : (stopRx p).cpu = p.cpu := by
  rw [stopRx]
  split <;> rfl

theorem step_inv {s t : Sys k} {a : Act} (h : Inv s) (hstep : Step s a t) : Inv t := by
  cases hstep with
  | opened hclosed => exact inv_openPort h hclosed _ _
  | closed hopen hidle => exact inv_close h hopen hidle
  | @wrote cs hopen hidle =>
    have hp : Paired (ctl { s.port with xmit := (fill cs s.port.xmit).2 }) := h.opened hopen
    exact inv_of_open hopen (paired_uartStart hp) uartStart_on
      (loopOk_idle ((uartStart_cpu _).trans hidle))
  | requested hopen hidle => exact inv_sendXchar h hopen hidle _
  | stopped hopen =>
    have hp : Paired (ctl { s.port with stopped := true }) := h.opened hopen
    exact inv_stopTx (s := { s with port := { s.port with stopped := true } }) hopen hp
      (Or.inr rfl)
  | restarted hopen hidle =>
    have hp : Paired (ctl { s.port with stopped := false }) := h.opened hopen
    exact inv_of_open hopen (paired_uartStart hp) uartStart_on
      (loopOk_idle ((uartStart_cpu _).trans hidle))
  | muted hopen hidle =>
    have hcpu : (stopRx s.port).cpu = .idle := (stopRx_cpu s.port).trans hidle
    exact h.frame (ctl_stopRx _) (tx_stopRx _) (fun _ => hcpu) (loopOk_idle hcpu)
  | called => exact ⟨h.opened, h.closed, h.enabled, h.loop⟩
  | put _ hidle hroom =>
    rw [UartTx.writeUtxh_room hroom]
    exact ⟨h.opened, h.closed, h.enabled, loopOk_idle hidle⟩
  | sending hready => exact inv_txChars h hready
  | reading hready =>
    have hlive := hready.2.1
    have hopen : s.opened = true := by
      by_contra hno
      have hfree := (h.closed (Bool.eq_false_of_not_eq_true hno)).1.rxInstalled
      rw [Irq.live, Bool.and_eq_true] at hlive
      exact Bool.noConfusion (hlive.1.symm.trans hfree)
    exact inv_of_open hopen (h.opened hopen) (h.enabled hopen)
      ⟨Nat.le_refl 64, fun _ => hready.2.2.2⟩
  | turned hturn => exact inv_turn h hturn
  | @shifted o os hfifo =>
    have hfifo' : s.port.txFifo.length < s.port.fifosize → os.length < s.port.fifosize := by
      rw [hfifo, List.length_cons]
      exact Nat.lt_of_succ_lt
    exact ⟨h.opened, h.closed, h.enabled, h.loop.mono rfl rfl rfl hfifo' id⟩
  | @received c =>
    rw [receive]
    split
    · have hrx : s.port.rxFifo ≠ [] → s.port.rxFifo ++ [c] ≠ [] :=
        fun _ => List.append_ne_nil_of_right_ne_nil _ (List.cons_ne_nil c [])
      exact ⟨h.opened, h.closed, h.enabled, h.loop.mono rfl rfl rfl id hrx⟩
    · exact h

variable {buf : Nat → UInt8} {fifosize : Nat} {consFlow : Bool} {read ignore : BitVec 32}

theorem inv_start : Inv (start (k := k) buf fifosize consFlow read ignore) where
  opened hno := Bool.noConfusion hno
  closed _ := ⟨⟨rfl, rfl, rfl, rfl, rfl⟩, rfl⟩
  enabled hno := Bool.noConfusion hno
  loop := trivial

/-- While the port is open both interrupts are claimed and that of the transmitter is
disabled exactly once or not at all, as `tx_enabled` says; while it is closed neither is
claimed. No `enable_irq` goes without its `disable_irq`, and whenever there is something
to send the interrupt that sends it is enabled. -/
structure Balanced (s : Sys k) : Prop where
  warned : s.port.txIrq.warned = false
  opened : s.opened = true → s.port.txIrq.installed = true ∧ s.port.rxIrq.installed = true ∧
    s.port.txIrq.depth = if s.port.txEnabled then 0 else 1
  closed : s.opened = false → s.port.txIrq.installed = false ∧ s.port.rxIrq.installed = false
  sending : s.opened = true → s.port.stopped = false → s.port.xmit.isEmpty = false →
    s.port.txIrq.live = true

theorem Inv.balanced {s : Sys k} (h : Inv s) : Balanced s where
  warned := by
    cases hopen : s.opened with
    | false => exact (h.closed hopen).1.warned
    | true => exact (h.opened hopen).warned
  opened hopen :=
    ⟨(h.opened hopen).txInstalled, (h.opened hopen).rxInstalled, (h.opened hopen).depth⟩
  closed hopen := ⟨(h.closed hopen).1.txInstalled, (h.closed hopen).1.rxInstalled⟩
  sending hopen hstop hne := by
    have hdepth : s.port.txIrq.depth = if s.port.txEnabled then 0 else 1 := (h.opened hopen).depth
    rw [if_pos (h.enabled hopen hstop hne)] at hdepth
    exact Bool.and_eq_true_iff.mpr ⟨(h.opened hopen).txInstalled, decide_eq_true hdepth⟩

/-- The calls of `disable_irq` and `enable_irq` stay paired through any calls of the
uart core, failing startups included, whatever interrupts them. -/
theorem irqs_balanced (as : List Act) :
    Always step Balanced (start (k := k) buf fifosize consFlow read ignore) as :=
  always_mono (fun _ h => h.balanced)
    (always_of_meets (fun _ _ _ h _ hstep => step_inv h (step_spec hstep)) inv_start
      (meets_of_forall (fun _ _ => trivial) _ as))

end LinuxDriver.UartIrq
