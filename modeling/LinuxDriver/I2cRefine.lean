import LinuxDriver.I2cTransfer
import Mathlib.Algebra.GroupWithZero.Nat

namespace LinuxDriver.I2cRefine

open I2cBus I2cMaster I2cTransfer

/-- The driver is at byte `p` of message `k`. -/
structure At (i2c : I2c) (ms : List I2cMsg) (k p : Nat) (st : State) (mode : Mode) : Prop where
  suspended : i2c.suspended = false
  msgs : i2c.msgs = ms
  msg : i2c.msg = some k
  msgNum : i2c.msgNum = BitVec.ofNat 32 ms.length
  msgIdx : i2c.msgIdx = BitVec.ofNat 32 k
  msgPtr : i2c.msgPtr = p
  state : i2c.state = st
  irqEn : i2c.con.irqEn = true
  stat : i2c.stat = ⟨mode, true, true⟩

variable {σ : Type} {t : Target σ} {i2c : I2c} {ms done rest : List I2cMsg} {m : I2cMsg}
  {k p n : Nat} {st : State} {mode : Mode}

theorem At.frame (h : At i2c ms k p st mode) {i2c' : I2c} (hirq : i2c'.con.irqEn = true)
    (heq : { i2c' with con := i2c.con, restat := i2c.restat, ds := i2c.ds } = i2c) :
    At i2c' ms k p st mode := by
  constructor
  · rw [← h.suspended, ← heq]
  · rw [← h.msgs, ← heq]
  · rw [← h.msg, ← heq]
  · rw [← h.msgNum, ← heq]
  · rw [← h.msgIdx, ← heq]
  · rw [← h.msgPtr, ← heq]
  · rw [← h.state, ← heq]
  · exact hirq
  · rw [← h.stat, ← heq]

theorem At.cur (h : At i2c (done ++ m :: rest) done.length p st mode) : i2c.cur = some m := by
  rw [I2c.cur, h.msg, h.msgs, Option.bind_some, List.getElem?_append_right (Nat.le_refl _),
    Nat.sub_self, List.getElem?_cons_zero]

theorem At.isLastmsg (h : At i2c ms k p st mode) (hk : k < ms.length)
    (hlen : ms.length < 2 ^ 32) : isLastmsg i2c = decide (k + 1 = ms.length) := by
  rw [I2cMaster.isLastmsg, h.msgNum, h.msgIdx]
  apply decide_eq_decide.mpr
  bv_omega

theorem At.isMsglast (h : At i2c ms k p st mode) (m : I2cMsg) :
    isMsglast i2c m = decide (p + 1 = m.len) := by rw [I2cMaster.isMsglast, h.msgPtr]

theorem At.isMsgend (h : At i2c ms k p st mode) (m : I2cMsg) :
    isMsgend i2c m = decide (m.len ≤ p) := by rw [I2cMaster.isMsgend, h.msgPtr]

theorem At.nextMsg (h : At i2c ms k p st mode) : At (nextMsg i2c) ms (k + 1) 0 st mode where
  suspended := h.suspended
  msgs := h.msgs
  msg := by rw [I2cMaster.nextMsg, h.msg, Option.map_some]
  msgNum := h.msgNum
  msgIdx := by
    rw [I2cMaster.nextMsg, h.msgIdx]
    exact (BitVec.ofNat_add k 1).symm
  msgPtr := rfl
  state := h.state
  irqEn := h.irqEn
  stat := h.stat

theorem At.nextMsg_append {m' : I2cMsg}
    (h : At i2c (done ++ m :: m' :: rest) done.length p st mode) :
    At (I2cMaster.nextMsg i2c) ((done ++ [m]) ++ m' :: rest) (done ++ [m]).length 0 st mode := by
  rw [List.append_assoc, List.singleton_append, List.length_append, List.length_singleton]
  exact At.nextMsg h

theorem At.stop_final (h : At i2c ms k p st mode) {err : Int} (hk : err = 0 → k + 1 = ms.length)
    (lastbit : Bool) (s : σ) :
    Final (resume t ⟨ackIrq (stop err i2c), lastbit, s⟩) ms err (t.stop s) where
  suspended := h.suspended
  msgs := h.msgs
  msg := rfl
  msgNum := rfl
  msgIdx := by
    change (if err ≠ 0 then _ else i2c.msgIdx + 1) = _
    split
    · rfl
    · rename_i h0
      rw [h.msgIdx, ← hk (not_not.mp h0)]
      exact (BitVec.ofNat_add k 1).symm
  state := rfl
  irqEn := rfl
  irqPend := rfl
  target := rfl

theorem At.stop_ends (h : At i2c (done ++ rest) k p st mode) {err : Int}
    (hk : err = 0 → k + 1 = (done ++ rest).length) (lastbit : Bool) (s : σ) (n : Nat) :
    Ends t n (resume t ⟨ackIrq (stop err i2c), lastbit, s⟩) done ⟨err, rest, t.stop s⟩ :=
  Ends.of_final (h.stop_final hk lastbit s) n

theorem lastmsg_append (done rest : List I2cMsg) (m : I2cMsg) :
    decide (done.length + 1 = (done ++ m :: rest).length) = rest.isEmpty := by
  cases rest with
  | nil => simp
  | cons m' rest =>
    simp only [List.length_append, List.length_cons, List.isEmpty_cons, decide_eq_false_iff_not]
    omega

theorem At.isLastmsg_append (h : At i2c (done ++ m :: rest) done.length p st mode)
    (hlen : (done ++ m :: rest).length < 2 ^ 32) : I2cMaster.isLastmsg i2c = rest.isEmpty := by
  rw [At.isLastmsg h (by simp) hlen, lastmsg_append]

section Send

def sent (t : Target σ) (m : I2cMsg) (rest : List I2cMsg) (bs : List UInt8) (s : σ) : Outcome σ :=
  let w := t.writeAll m.ignoreNak bs s
  if w.1 then (transfer t (restarts rest) rest w.2).after m
  else ⟨-econnrefused, m :: rest, t.stop w.2⟩

def SendEnds (t : Target σ) (n : Nat) (i2c : I2c) (s : σ) (done : List I2cMsg)
    (o : Outcome σ) : Prop :=
  ∃ i2c', retryWrite i2c = some i2c' ∧
    ∀ lastbit, Ends t n (resume t ⟨ackIrq i2c', lastbit, s⟩) done o

theorem resume_write (i2c : I2c) (hrestat : i2c.restat = none)
    (hstat : i2c.stat = ⟨.masterTx, true, true⟩) (lastbit : Bool) (s : σ) :
    resume t ⟨ackIrq i2c, lastbit, s⟩ =
      ⟨raise (ackIrq i2c), !(t.write s i2c.ds).1, (t.write s i2c.ds).2⟩ := by
  simp [resume, ackIrq, hrestat, hstat]

theorem irq_of_write (h : i2c.state = .write) (lastbit : Bool) :
    irq lastbit i2c = (irqWrite lastbit i2c).map ackIrq := by
  simp [irq, irqNextbyte, h]

theorem pending_of_irqEn {lastbit : Bool} {s : σ} (h : i2c.con.irqEn = true) :
    (⟨raise i2c, lastbit, s⟩ : Sys σ).pending = true := by
  simp [Sys.pending, raise, h]

theorem write_irq {o : Outcome σ} (h : At i2c (done ++ m :: rest) done.length p .write .masterTx)
    (ack : Bool) (s : σ)
    (hnak : (ack || m.ignoreNak) = false → o = ⟨-econnrefused, m :: rest, t.stop s⟩)
    (hack : (ack || m.ignoreNak) = true →
      SendEnds t n { raise i2c with restat := none } s done o) :
    Ends t (n + 1) ⟨raise i2c, !ack, s⟩ done o := by
  have hframe : At { raise i2c with restat := none } (done ++ m :: rest) done.length p .write
      .masterTx := At.frame h h.irqEn rfl
  have hirq : irq (!ack) { raise i2c with restat := none } = _ := irq_of_write hframe.state (!ack)
  rw [irqWrite, At.cur hframe] at hirq
  cases hor : ack || m.ignoreNak with
  | false =>
    obtain ⟨rfl, hign⟩ := Bool.or_eq_false_iff.mp hor
    refine Ends.of_irq (ackIrq (stop (-econnrefused) { raise i2c with restat := none }))
      (pending_of_irqEn h.irqEn) ?_ ?_
    · simpa only [hign, Bool.not_false, Bool.and_self, if_true, Option.map_some] using hirq
    · rw [hnak hor]
      exact At.stop_ends hframe (fun h0 => absurd h0 (by decide)) _ s n
  | true =>
    obtain ⟨i2c', hretry, hends⟩ := hack hor
    have hcond : (!m.ignoreNak && !ack) = false := by
      rw [← Bool.not_or, Bool.or_comm, hor, Bool.not_true]
    refine Ends.of_irq (ackIrq i2c') (pending_of_irqEn h.irqEn) ?_ (hends _)
    simpa only [hcond, Bool.false_eq_true, if_false, hretry, Option.map_some] using hirq

/-- A byte is on the bus, and its acknowledgement decides what the interrupt does. -/
theorem write_step (h : At i2c (done ++ m :: rest) done.length p .write .masterTx)
    (hrestat : i2c.restat = none) (hp : p < m.len) (s : σ)
    (hnext : ∀ i2c', At i2c' (done ++ m :: rest) done.length (p + 1) .write .masterTx →
      i2c'.restat = none → SendEnds t n i2c' (t.write s m.buf[p]).2 done
        (sent t m rest (m.buf.drop (p + 1)) (t.write s m.buf[p]).2)) :
    SendEnds t (n + 1) i2c s done (sent t m rest (m.buf.drop p) s) := by
  have hend : I2cMaster.isMsgend i2c m = false := by
    rw [At.isMsgend h]
    exact decide_eq_false (by omega)
  have hbyte : m.buf[i2c.msgPtr]? = some m.buf[p] := by
    rw [h.msgPtr]
    exact List.getElem?_eq_getElem hp
  have hdrop : m.buf.drop p = m.buf[p] :: m.buf.drop (p + 1) := List.drop_eq_getElem_cons hp
  have hmoved : At (putByte m.buf[p] i2c) (done ++ m :: rest) done.length (p + 1) .write
      .masterTx :=
    ⟨h.suspended, h.msgs, h.msg, h.msgNum, h.msgIdx, congrArg (· + 1) h.msgPtr, h.state, h.irqEn,
      h.stat⟩
  refine ⟨putByte m.buf[p] i2c, ?_, ?_⟩
  · rw [retryWrite_of_cur (At.cur h), hend, Bool.not_false, if_pos rfl, hbyte, Option.map_some]
  · intro lastbit
    rw [resume_write (putByte m.buf[p] i2c) hrestat h.stat]
    have hsent : At (ackIrq (putByte m.buf[p] i2c)) (done ++ m :: rest) done.length (p + 1) .write
        .masterTx := At.frame hmoved h.irqEn rfl
    refine write_irq hsent (t.write s m.buf[p]).1 (t.write s m.buf[p]).2
      (fun hnak => ?_) (fun hack => ?_)
    · rw [hdrop, sent, writeAll_cons_of_nak hnak]
      rfl
    · rw [hdrop, sent, writeAll_cons_of_ack hack]
      exact hnext _ (At.frame hmoved h.irqEn rfl) rfl

theorem bytes_send (hend : ∀ i2c (s : σ),
    At i2c (done ++ m :: rest) done.length m.len .write .masterTx →
      i2c.restat = none → SendEnds t n i2c s done (sent t m rest [] s)) (d : Nat) :
    ∀ i2c p (s : σ), p + d = m.len →
      At i2c (done ++ m :: rest) done.length p .write .masterTx → i2c.restat = none →
      SendEnds t (n + d) i2c s done (sent t m rest (m.buf.drop p) s) := by
  induction d with
  | zero =>
    intro i2c p s hp h hrestat
    obtain rfl : p = m.len := hp
    rw [I2cMsg.len, List.drop_length]
    exact hend i2c s h hrestat
  | succ d ih =>
    intro i2c p s hp h hrestat
    exact write_step h hrestat (by omega) s
      (fun i2c' h' hrestat' => ih i2c' (p + 1) _ (by omega) h' hrestat')

end Send

section Receive

def received (t : Target σ) (m : I2cMsg) (rest : List I2cMsg) (p : Nat) (s : σ) : Outcome σ :=
  let r := t.readAll (acks rest.isEmpty (m.len - p)) s
  (receive t false rest r.2).after { m with buf := m.buf.take p ++ r.1 }

def ReadEnds (t : Target σ) (n : Nat) (i2c : I2c) (s : σ) (done : List I2cMsg)
    (o : Outcome σ) : Prop :=
  ∃ i2c', prepareRead i2c = some i2c' ∧
    ∀ lastbit, Ends t n (resume t ⟨ackIrq i2c', lastbit, s⟩) done o

theorem resume_read (i2c : I2c) (hrestat : i2c.restat = none)
    (hstat : i2c.stat = ⟨.masterRx, true, true⟩) (lastbit : Bool) (s : σ) :
    resume t ⟨ackIrq i2c, lastbit, s⟩ =
      ⟨raise { i2c with ds := (t.read s i2c.con.ackEn).1 }, !i2c.con.ackEn,
        (t.read s i2c.con.ackEn).2⟩ := by
  simp [resume, ackIrq, raise, hrestat, hstat]

theorem irq_of_read (h : i2c.state = .read) (lastbit : Bool) :
    irq lastbit i2c = ((storeByte i2c.ds i2c).bind prepareRead).map ackIrq := by
  simp [irq, irqNextbyte, h]

theorem At.storeByte (h : At i2c (done ++ m :: rest) done.length p st mode) (hp : p < m.len)
    (byte : UInt8) :
    ∃ i2c', storeByte byte i2c = some i2c' ∧
      At i2c' (done ++ m.store p byte :: rest) done.length (p + 1) st mode ∧
      i2c'.restat = i2c.restat ∧ i2c'.con = i2c.con := by
  have hset : i2c.msgs.set done.length (m.store i2c.msgPtr byte) =
      done ++ m.store p byte :: rest := by
    rw [h.msgs, h.msgPtr, List.set_append_right _ _ (Nat.le_refl _), Nat.sub_self,
      List.set_cons_zero]
  refine ⟨{ i2c with
    msgs := i2c.msgs.set done.length (m.store i2c.msgPtr byte)
    msgPtr := i2c.msgPtr + 1 }, ?_, ⟨h.suspended, hset, h.msg, ?_, h.msgIdx,
      congrArg (· + 1) h.msgPtr, h.state, h.irqEn, h.stat⟩, rfl, rfl⟩
  · simp only [I2cMaster.storeByte, At.cur h, h.msg]
    rw [if_pos (by rw [h.msgPtr]; exact hp)]
  · rw [h.msgNum, List.length_append, List.length_append, List.length_cons, List.length_cons]

theorem read_irq {o : Outcome σ} (h : At i2c (done ++ m :: rest) done.length p .read .masterRx)
    (hp : p < m.len) (lastbit : Bool) (s : σ)
    (hnext : ∀ i2c', At i2c' (done ++ m.store p i2c.ds :: rest) done.length
        (p + 1) .read .masterRx → i2c'.restat = none → i2c'.con.ackEn = i2c.con.ackEn →
      ReadEnds t n i2c' s done o) :
    Ends t (n + 1) ⟨raise i2c, lastbit, s⟩ done o := by
  have hframe : At { raise i2c with restat := none } (done ++ m :: rest) done.length p .read
      .masterRx := At.frame h h.irqEn rfl
  obtain ⟨i2c', hstore, hat, hrestat, hcon⟩ := At.storeByte hframe hp i2c.ds
  obtain ⟨i2c'', hprepare, hends⟩ := hnext i2c' hat hrestat (by rw [hcon]; rfl)
  refine Ends.of_irq (ackIrq i2c'') (pending_of_irqEn h.irqEn) ?_ (hends _)
  rw [irq_of_read hframe.state]
  change ((storeByte i2c.ds _).bind prepareRead).map ackIrq = _
  rw [hstore, Option.bind_some, hprepare, Option.map_some]

theorem take_store {p : Nat} {m : I2cMsg} (hp : p < m.len) (b : UInt8) :
    (m.store p b).buf.take (p + 1) = m.buf.take p ++ [b] := by
  rw [I2cMsg.store, List.take_succ_eq_append_getElem (by rw [List.length_set]; exact hp),
    List.take_set_of_le (Nat.le_refl _), List.getElem_set_self]

theorem received_step (t : Target σ) (rest : List I2cMsg) (s : σ) (hp : p < m.len) :
    received t m rest p s =
      let r := t.read s (!(rest.isEmpty && decide (p + 1 = m.len)))
      received t (m.store p r.1) rest (p + 1) r.2 := by
  obtain ⟨d, hd⟩ : ∃ d, m.len - p = d + 1 := ⟨m.len - p - 1, by omega⟩
  have hd' : m.len - (p + 1) = d := by omega
  have hlast : decide (p + 1 = m.len) = decide (d = 0) := decide_eq_decide.mpr (by omega)
  simp only [received, len_store, hd, hd', acks, Target.readAll, hlast, take_store hp,
    List.append_assoc, List.singleton_append]
  rfl

theorem acks_first (last : Bool) (d : Nat) :
    acks (last && decide (2 ≤ d + 1)) (d + 1) = true :: acks last d := by
  cases d with
  | zero => cases last <;> rfl
  | succ d => simp [acks]

theorem receive_first (t : Target σ) (m : I2cMsg) (rest : List I2cMsg) (s : σ)
    (hm : 0 < m.len) :
    receive t false (m :: rest) s =
      received t (m.store 0 (t.read s true).1) rest 1 (t.read s true).2 := by
  obtain ⟨d, hd⟩ : ∃ d, m.len = d + 1 := ⟨m.len - 1, by omega⟩
  simp only [receive, received, len_store, Bool.false_or, hd, acks_first, Target.readAll,
    Nat.add_sub_cancel, take_store hm, List.take_zero, List.nil_append, List.singleton_append]
  rfl

theorem prepareRead_of_lt (h : At i2c (done ++ m :: rest) done.length p .read .masterRx)
    (hlen : (done ++ m :: rest).length < 2 ^ 32) (hp : p < m.len) (hack : i2c.con.ackEn = true) :
    ∃ i2c', prepareRead i2c = some i2c' ∧
      At i2c' (done ++ m :: rest) done.length p .read .masterRx ∧ i2c'.restat = i2c.restat ∧
      i2c'.con.ackEn = !(rest.isEmpty && decide (p + 1 = m.len)) := by
  have hend : ¬ I2cMaster.isMsgend i2c m = true := by
    rw [At.isMsgend h, decide_eq_true_eq]
    omega
  rw [prepareRead, At.cur h, Option.map_some, At.isMsglast h, At.isLastmsg_append h hlen,
    if_neg hend]
  cases hlast : decide (p + 1 = m.len) with
  | false => exact ⟨i2c, rfl, h, rfl, by rw [hack, Bool.and_false, Bool.not_false]⟩
  | true =>
    cases hempty : rest.isEmpty with
    | false => exact ⟨i2c, rfl, h, rfl, hack⟩
    | true => exact ⟨disableAck i2c, rfl, At.frame h h.irqEn rfl, rfl, rfl⟩

theorem read_step (h : At i2c (done ++ m :: rest) done.length p .read .masterRx)
    (hlen : (done ++ m :: rest).length < 2 ^ 32) (hrestat : i2c.restat = none) (hp : p < m.len)
    (hack : i2c.con.ackEn = true) (s : σ)
    (hnext : ∀ i2c' b (s' : σ),
      At i2c' (done ++ m.store p b :: rest) done.length (p + 1) .read .masterRx →
      i2c'.restat = none → (p + 1 < m.len ∨ rest ≠ [] → i2c'.con.ackEn = true) →
      ReadEnds t n i2c' s' done (received t (m.store p b) rest (p + 1) s')) :
    ReadEnds t (n + 1) i2c s done (received t m rest p s) := by
  obtain ⟨i2c', hprepare, hat, hrestat', hack'⟩ := prepareRead_of_lt h hlen hp hack
  refine ⟨i2c', hprepare, fun lastbit => ?_⟩
  rw [resume_read i2c' (hrestat'.trans hrestat) hat.stat, received_step t rest s hp, ← hack']
  have hread : At { i2c' with ds := (t.read s i2c'.con.ackEn).1 } (done ++ m :: rest) done.length
      p .read .masterRx := At.frame hat hat.irqEn rfl
  refine read_irq hread hp _ _
    (fun i2c'' hat'' hrestat'' hcon => hnext i2c'' _ _ hat'' hrestat'' ?_)
  intro hmore
  rw [hcon]
  change i2c'.con.ackEn = true
  rw [hack']
  rcases hmore with hlt | hrest
  · have hno : decide (p + 1 = m.len) = false := decide_eq_false (by omega)
    rw [hno, Bool.and_false, Bool.not_false]
  · rw [List.isEmpty_eq_false_iff.mpr hrest, Bool.false_and, Bool.not_false]

theorem bytes_read (hend : ∀ i2c m' (s : σ), m'.len = m.len →
      At i2c (done ++ m' :: rest) done.length m'.len .read .masterRx → i2c.restat = none →
      (rest ≠ [] → i2c.con.ackEn = true) →
      ReadEnds t n i2c s done (received t m' rest m'.len s))
    (hlen : (done ++ m :: rest).length < 2 ^ 32) (d : Nat) :
    ∀ i2c m' p (s : σ), m'.len = m.len → p + d = m.len →
      At i2c (done ++ m' :: rest) done.length p .read .masterRx → i2c.restat = none →
      (p < m'.len ∨ rest ≠ [] → i2c.con.ackEn = true) →
      ReadEnds t (n + d) i2c s done (received t m' rest p s) := by
  induction d with
  | zero =>
    intro i2c m' p s hm hp h hrestat hack
    obtain rfl : p = m'.len := by omega
    exact hend i2c m' s hm h hrestat (fun hrest => hack (.inr hrest))
  | succ d ih =>
    intro i2c m' p s hm hp h hrestat hack
    have hp' : p < m'.len := by omega
    have hlen' : (done ++ m' :: rest).length < 2 ^ 32 := by simpa using hlen
    refine read_step h hlen' hrestat hp' (hack (.inl hp')) s
      (fun i2c' b s' hat hrestat' hack' => ?_)
    refine ih i2c' (m'.store p b) (p + 1) s' ((len_store p b m').trans hm) (by omega) hat
      hrestat' ?_
    rw [len_store]
    exact hack'

theorem received_end (t : Target σ) (m : I2cMsg) (rest : List I2cMsg) (s : σ) :
    received t m rest m.len s = (receive t false rest s).after m := by
  simp [received, acks, Target.readAll, I2cMsg.len]

theorem prepareRead_end (h : At i2c (done ++ m :: rest) done.length m.len .read .masterRx)
    (hlen : (done ++ m :: rest).length < 2 ^ 32) :
    prepareRead i2c = some (if rest.isEmpty then stop 0 i2c else nextMsg i2c) := by
  have hlast : ¬ I2cMaster.isMsglast i2c m = true := by
    rw [At.isMsglast h, decide_eq_true_eq]
    omega
  have hend : I2cMaster.isMsgend i2c m = true := by
    rw [At.isMsgend h]
    exact decide_eq_true (Nat.le_refl _)
  rw [prepareRead, At.cur h, Option.map_some, if_neg hlast, if_pos hend,
    At.isLastmsg_append h hlen]

/-- Once it reads, the driver fills the messages one after another and stops. -/
theorem read_ends (rest : List I2cMsg) (hne : ∀ m' ∈ rest, m'.buf ≠ []) :
    ∀ (done : List I2cMsg) (m : I2cMsg) i2c p (s : σ), p ≤ m.len →
      (done ++ m :: rest).length < 2 ^ 32 →
      At i2c (done ++ m :: rest) done.length p .read .masterRx → i2c.restat = none →
      (p < m.len ∨ rest ≠ [] → i2c.con.ackEn = true) →
      ReadEnds t (cost rest + (m.len - p)) i2c s done (received t m rest p s) := by
  induction rest with
  | nil =>
    intro done m i2c p s hp hlen h hrestat hack
    refine bytes_read (fun i2c' m' s' hm hat _ _ => ?_) hlen (m.len - p) i2c m p s rfl (by omega)
      h hrestat hack
    have hlen' : (done ++ [m']).length < 2 ^ 32 := by simpa using hlen
    refine ⟨stop 0 i2c', prepareRead_end hat hlen', fun lastbit => ?_⟩
    rw [received_end]
    exact At.stop_ends hat (fun _ => by simp) lastbit s' _
  | cons m1 rest ih =>
    intro done m i2c p s hp hlen h hrestat hack
    refine bytes_read (fun i2c' m' s' hm hat hrestat' hack' => ?_) hlen (m.len - p) i2c m p s rfl
      (by omega) h hrestat hack
    have hm1 : 0 < m1.len := List.length_pos_iff.mpr (hne m1 List.mem_cons_self)
    have hlen' : (done ++ m' :: m1 :: rest).length < 2 ^ 32 := by simpa using hlen
    have hnext := At.nextMsg_append hat
    refine ⟨nextMsg i2c', prepareRead_end hat hlen', fun lastbit => ?_⟩
    have hackNext : (nextMsg i2c').con.ackEn = true := hack' (List.cons_ne_nil m1 rest)
    rw [received_end, resume_read (nextMsg i2c') hrestat' hat.stat, hackNext,
      receive_first t m1 rest s' hm1]
    apply Ends.after
    have hread : At { nextMsg i2c' with ds := (t.read s' true).1 } ((done ++ [m']) ++ m1 :: rest)
        (done ++ [m']).length 0 .read .masterRx := At.frame hnext hat.irqEn rfl
    refine Ends.mono (n := cost rest + (m1.len - 1) + 1) ?_ (by rw [cost]; omega)
    refine read_irq hread hm1 _ _ (fun i2c'' hat'' hrestat'' hcon => ?_)
    have hrest := ih (fun x hx => hne x (List.mem_cons_of_mem m1 hx)) (done ++ [m'])
      (m1.store 0 (t.read s' true).1) i2c'' 1 (t.read s' true).2 (by rw [len_store]; omega)
      (by simpa using hlen') hat'' hrestat'' (fun _ => hcon.trans hackNext)
    rwa [len_store] at hrest

end Receive

section Start

def modeOf (m : I2cMsg) : Mode := if m.rd then .masterRx else .masterTx

def addressed (t : Target σ) (m : I2cMsg) (rest : List I2cMsg) (ack : Bool) (s : σ) : Outcome σ :=
  if !ack && !m.ignoreNak then ⟨-enxio, m :: rest, t.stop s⟩
  else if m.rd then receive t true (m :: rest) s
  else sent t m rest m.buf s

theorem transfer_true (t : Target σ) (m : I2cMsg) (rest : List I2cMsg) (s : σ) :
    transfer t true (m :: rest) s =
      addressed t m rest (t.start s m.addrByte).1 (t.start s m.addrByte).2 := rfl

theorem transfer_false (t : Target σ) (m : I2cMsg) (rest : List I2cMsg) (s : σ) :
    transfer t false (m :: rest) s = sent t m rest m.buf s := rfl

theorem receive_true (t : Target σ) (m : I2cMsg) (rest : List I2cMsg) (s : σ) :
    receive t true (m :: rest) s = received t m rest 0 s := by
  simp [receive, received]

theorem irq_of_start (h : i2c.state = .start) (lastbit : Bool) :
    irq lastbit i2c = (irqStart lastbit i2c).map ackIrq := by
  simp [irq, irqNextbyte, h]

theorem addressed_empty (t : Target σ) (hm : m.len = 0) {ack : Bool} (s : σ)
    (hack : ¬ (!ack && !m.ignoreNak) = true) :
    addressed t m [] ack s = ⟨0, [m], t.stop s⟩ := by
  have hbuf : m.buf = [] := List.length_eq_zero_iff.mp hm
  rw [addressed, if_neg hack]
  cases hrd : m.rd with
  | true =>
    rw [if_pos rfl, receive_true, ← hm, received_end]
    rfl
  | false =>
    rw [if_neg Bool.false_ne_true, hbuf]
    rfl

theorem At.turn (h : At i2c ms k p st (modeOf m)) :
    (m.rd = true → At (I2cMaster.turn m i2c) ms k p .read .masterRx) ∧
      (m.rd = false → At (I2cMaster.turn m i2c) ms k p .write .masterTx) := by
  constructor
  · intro hrd
    have hstat := h.stat
    rw [modeOf, if_pos hrd] at hstat
    exact ⟨h.suspended, h.msgs, h.msg, h.msgNum, h.msgIdx, h.msgPtr, if_pos hrd, h.irqEn, hstat⟩
  · intro hrd
    have hstat := h.stat
    rw [modeOf, if_neg (ne_true_of_eq_false hrd)] at hstat
    exact ⟨h.suspended, h.msgs, h.msg, h.msgNum, h.msgIdx, h.msgPtr,
      if_neg (ne_true_of_eq_false hrd), h.irqEn, hstat⟩

theorem irqStart_of_ack (h : At i2c (done ++ m :: rest) done.length p st (modeOf m))
    (hlen : (done ++ m :: rest).length < 2 ^ 32) {lastbit : Bool}
    (hack : ¬ (lastbit && !m.ignoreNak) = true) :
    irqStart lastbit i2c =
      if rest.isEmpty && decide (m.len = 0) then some (stop 0 (turn m i2c))
      else if m.rd then prepareRead (turn m i2c) else retryWrite (turn m i2c) := by
  have hlast : I2cMaster.isLastmsg (turn m i2c) = rest.isEmpty := by
    change I2cMaster.isLastmsg i2c = _
    exact At.isLastmsg_append h hlen
  have hcur : (turn m i2c).cur = some m := by
    change i2c.cur = _
    exact At.cur h
  have hwrite : ¬ (!m.ignoreNak && lastbit) = true := by rwa [Bool.and_comm]
  rw [irqStart, At.cur h]
  dsimp only
  rw [if_neg hack]
  rw [hlast, irqWrite, hcur]
  dsimp only
  rw [if_neg hwrite]

theorem start_irq (h : At i2c (done ++ m :: rest) done.length 0 .start (modeOf m))
    (hlen : (done ++ m :: rest).length < 2 ^ 32) (hackEn : i2c.con.ackEn = true)
    (hne : m.rd = true → ∀ m' ∈ rest, m'.buf ≠ []) (ack : Bool) (s : σ)
    (hsend : m.rd = false → ∀ i2c', At i2c' (done ++ m :: rest) done.length 0 .write .masterTx →
      i2c'.restat = none → SendEnds t (cost rest + m.len) i2c' s done (sent t m rest m.buf s)) :
    Ends t (cost (m :: rest)) ⟨raise i2c, !ack, s⟩ done (addressed t m rest ack s) := by
  have hframe : At { raise i2c with restat := none } (done ++ m :: rest) done.length 0 .start
      (modeOf m) := At.frame h h.irqEn rfl
  have hturn := At.turn hframe
  have hirq : irq (!ack) { raise i2c with restat := none } = _ := irq_of_start hframe.state (!ack)
  have hcost : cost (m :: rest) = cost rest + m.len + 1 := by
    rw [cost]
    omega
  rw [hcost]
  by_cases hnak : (!ack && !m.ignoreNak) = true
  · rw [irqStart, At.cur hframe] at hirq
    dsimp only at hirq
    rw [if_pos hnak] at hirq
    refine Ends.of_irq _ (pending_of_irqEn h.irqEn) hirq ?_
    rw [addressed, if_pos hnak]
    exact At.stop_ends hframe (fun h0 => absurd h0 (by decide)) _ s _
  · rw [irqStart_of_ack hframe hlen hnak] at hirq
    by_cases hempty : (rest.isEmpty && decide (m.len = 0)) = true
    · rw [if_pos hempty, Option.map_some] at hirq
      obtain ⟨hnil, hm⟩ := Bool.and_eq_true_iff.mp hempty
      obtain rfl : rest = [] := List.isEmpty_iff.mp hnil
      refine Ends.of_irq _ (pending_of_irqEn h.irqEn) hirq ?_
      rw [addressed_empty t (of_decide_eq_true hm) s hnak]
      cases hrd : m.rd with
      | true => exact At.stop_ends (hturn.1 hrd) (fun _ => by simp) _ s _
      | false => exact At.stop_ends (hturn.2 hrd) (fun _ => by simp) _ s _
    · rw [if_neg hempty] at hirq
      rw [addressed, if_neg hnak]
      cases hrd : m.rd with
      | true =>
        obtain ⟨i2c', hprepare, hends⟩ := read_ends rest (hne hrd) done m _ 0 s (Nat.zero_le _) hlen
          (hturn.1 hrd) rfl (fun _ => hackEn)
        rw [hrd, if_pos rfl, hprepare] at hirq
        rw [if_pos rfl, receive_true]
        exact Ends.of_irq _ (pending_of_irqEn h.irqEn) hirq (hends _)
      | false =>
        obtain ⟨i2c', hretry, hends⟩ := hsend hrd _ (hturn.2 hrd) rfl
        rw [hrd, if_neg Bool.false_ne_true, hretry] at hirq
        rw [if_neg Bool.false_ne_true]
        exact Ends.of_irq _ (pending_of_irqEn h.irqEn) hirq (hends _)

theorem At.messageStart (h : At i2c ms k p st mode) :
    At { messageStart m i2c with state := .start } ms k p .start (modeOf m) :=
  ⟨h.suspended, h.msgs, h.msg, h.msgNum, h.msgIdx, h.msgPtr, rfl, h.irqEn, rfl⟩

theorem resume_start (m : I2cMsg) (i2c : I2c) (lastbit : Bool) (s : σ) :
    resume t ⟨ackIrq { messageStart m i2c with state := .start }, lastbit, s⟩ =
      ⟨raise (ackIrq { messageStart m i2c with state := .start }),
        !(t.start s m.addrByte).1, (t.start s m.addrByte).2⟩ := rfl

theorem start_ends (hsafe : Safe true (m :: rest)) (hlen : (done ++ m :: rest).length < 2 ^ 32)
    (hsend : m.rd = false → ∀ i2c' (s' : σ),
      At i2c' (done ++ m :: rest) done.length 0 .write .masterTx → i2c'.restat = none →
      SendEnds t (cost rest + m.len) i2c' s' done (sent t m rest m.buf s'))
    (h : At i2c (done ++ m :: rest) done.length 0 st mode) (lastbit : Bool) (s : σ) :
    Ends t (cost (m :: rest))
      (resume t ⟨ackIrq { messageStart m i2c with state := .start }, lastbit, s⟩) done
      (transfer t true (m :: rest) s) := by
  have hstart : At (ackIrq { messageStart m i2c with state := .start }) (done ++ m :: rest)
      done.length 0 .start (modeOf m) := At.frame (At.messageStart h) h.irqEn rfl
  rw [resume_start, transfer_true]
  refine start_irq hstart hlen rfl (fun hrd => ?_) _ _ (fun hrd i2c' => hsend hrd i2c' _)
  rwa [Safe, if_pos hrd] at hsafe

end Start

theorem retryWrite_end (h : At i2c (done ++ m :: rest) done.length m.len .write .masterTx)
    (hlen : (done ++ m :: rest).length < 2 ^ 32) :
    retryWrite i2c =
      if rest.isEmpty then some (stop 0 i2c)
      else match (nextMsg i2c).cur with
        | none => none
        | some m' =>
          if m'.noStart then
            if m'.rd then retryWrite (stop (-einval) (nextMsg i2c)) else retryWrite (nextMsg i2c)
          else some { messageStart m' (nextMsg i2c) with state := .start } := by
  have hend : I2cMaster.isMsgend i2c m = true := by
    rw [At.isMsgend h]
    exact decide_eq_true (Nat.le_refl _)
  rw [retryWrite_of_cur (At.cur h), hend, At.isLastmsg_append h hlen]
  cases rest <;> rfl

theorem safe_tail (hsafe : Safe true (m :: rest)) (hrd : m.rd = false) :
    Safe (restarts rest) rest := by
  rwa [Safe, if_neg (ne_true_of_eq_false hrd)] at hsafe

theorem send_end (rest : List I2cMsg) :
    ∀ (done : List I2cMsg) (m : I2cMsg) i2c (s : σ), Safe (restarts rest) rest →
      (done ++ m :: rest).length < 2 ^ 32 →
      At i2c (done ++ m :: rest) done.length m.len .write .masterTx → i2c.restat = none →
      SendEnds t (cost rest) i2c s done (sent t m rest [] s) := by
  induction rest with
  | nil =>
    intro done m i2c s _ hlen h _
    exact ⟨stop 0 i2c, retryWrite_end h hlen,
      fun lastbit => At.stop_ends h (fun _ => by simp) lastbit s _⟩
  | cons m1 rest ih =>
    intro done m i2c s hsafe hlen h hrestat
    have hnext := At.nextMsg_append h
    have hlen1 : ((done ++ [m]) ++ m1 :: rest).length < 2 ^ 32 := by simpa using hlen
    have hretry := retryWrite_end h hlen
    rw [List.isEmpty_cons, if_neg Bool.false_ne_true, At.cur hnext] at hretry
    dsimp only at hretry
    -- from its first byte on, the next message is sent like any other
    have hbytes (htail : Safe (restarts rest) rest) : ∀ i2c' (s' : σ),
        At i2c' ((done ++ [m]) ++ m1 :: rest) (done ++ [m]).length 0 .write .masterTx →
        i2c'.restat = none → SendEnds t (cost rest + m1.len) i2c' s' (done ++ [m])
          (sent t m1 rest m1.buf s') :=
      fun i2c' s' hat hrestat' =>
        bytes_send (fun i2c'' s'' hat' hrestat'' => ih (done ++ [m]) m1 i2c'' s'' htail hlen1 hat'
          hrestat'') m1.len i2c' 0 s' (Nat.zero_add _) hat hrestat'
    cases hno : m1.noStart with
    | true =>
      rw [restarts, hno, Bool.not_true, Safe] at hsafe
      rw [hno, if_pos rfl, hsafe.1, if_neg Bool.false_ne_true] at hretry
      obtain ⟨i2c', hsome, hends⟩ := hbytes hsafe.2 (nextMsg i2c) s hnext hrestat
      refine ⟨i2c', hretry.trans hsome, fun lastbit => ?_⟩
      have hsent : sent t m (m1 :: rest) [] s = (sent t m1 rest m1.buf s).after m := by
        rw [← transfer_false]
        simp only [sent, Target.writeAll, if_true, restarts, hno, Bool.not_true]
      rw [hsent]
      exact Ends.after (Ends.mono (hends lastbit) (by rw [cost]; omega))
    | false =>
      rw [restarts, hno, Bool.not_false] at hsafe
      rw [hno, if_neg Bool.false_ne_true] at hretry
      refine ⟨_, hretry, fun lastbit => ?_⟩
      have hsent : sent t m (m1 :: rest) [] s = (transfer t true (m1 :: rest) s).after m := by
        simp only [sent, Target.writeAll, if_true, restarts, hno, Bool.not_false]
      rw [hsent]
      exact Ends.after (start_ends hsafe hlen1
        (fun hrd i2c' s' => hbytes (safe_tail hsafe hrd) i2c' s') hnext lastbit s)

/-- The controller is at rest. -/
structure Ready (s : Sys σ) : Prop where
  suspended : s.i2c.suspended = false
  irqPend : s.i2c.con.irqPend = false

theorem Final.ready {s : Sys σ} {err : Int} {target : σ} (h : Final s ms err target) : Ready s :=
  ⟨h.suspended, h.irqPend⟩

theorem ackIrq_of_not_pend (h : i2c.con.irqPend = false) : ackIrq i2c = i2c := by
  obtain ⟨_, _, _, _, _, _, _, _, ⟨_, _, _⟩, _, _, _⟩ := i2c
  cases h
  rfl

def loaded (ms : List I2cMsg) (i2c : I2c) : I2c :=
  { enableIrq i2c with
    msgs := ms
    msg := some 0
    msgNum := BitVec.ofNat 32 ms.length
    msgPtr := 0
    msgIdx := 0
    state := .start
    stat := ⟨.slave, true, true⟩ }

/-- From the start of a transfer on, the interrupts do what it is for. -/
theorem begin_ends (t : Target σ) {s : Sys σ} (hs : Ready s) (hne : ms ≠ [])
    (hlen : ms.length < 2 ^ 32) (hsafe : Safe true ms) :
    ∃ i2c, begin ms s.i2c = some i2c ∧
      Ends t (cost ms) (resume t { s with i2c := i2c }) [] (transfer t true ms s.target) := by
  cases ms with
  | nil => exact absurd rfl hne
  | cons m rest =>
    have hat : At (loaded (m :: rest) s.i2c) (m :: rest) 0 0 .start .slave :=
      ⟨hs.suspended, rfl, rfl, rfl, rfl, rfl, rfl, rfl, rfl⟩
    refine ⟨messageStart m (loaded (m :: rest) s.i2c), rfl, ?_⟩
    have hends := start_ends (t := t) hsafe hlen (fun hrd i2c' s' hat' hrestat' =>
      bytes_send (fun i2c'' s'' => send_end rest [] m i2c'' s'' (safe_tail hsafe hrd) hlen) m.len
        i2c' 0 s' (Nat.zero_add _) hat' hrestat') hat s.lastbit s.target
    have hpend : (messageStart m (loaded (m :: rest) s.i2c)).con.irqPend = false := hs.irqPend
    rw [← ackIrq_of_not_pend hpend]
    exact hends

end LinuxDriver.I2cRefine
