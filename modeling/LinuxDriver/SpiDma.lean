import LinuxDriver.SpiQueue

namespace LinuxDriver.SpiDma

open Runs Holding SpiMaster SpiWork SpiStep SpiQueue

variable {sci : Info} {s t : Spi} {a : Act} {map : Nat → Option Nat}

section Messages

def rxMapping (xfer : Transfer) : List Mapping :=
  if xfer.rxBuf then xfer.rxDma.toList.map (⟨·, .fromDevice⟩) else []

def txMapping (xfer : Transfer) : List Mapping :=
  if xfer.txBuf then xfer.txDma.toList.map (⟨·, .toDevice⟩) else []

def mapping (sci : Info) (xfer : Transfer) : List Mapping :=
  if useDma sci xfer then rxMapping xfer ++ txMapping xfer else []

def mappings (sci : Info) (xfers : List Transfer) : List Mapping := xfers.flatMap (mapping sci)

/-- The calls of `dma_map_single` for a transfer: whether each is for the receive
buffer of one that has nothing to send. -/
def mapCalls (xfer : Transfer) : List Bool :=
  (if xfer.txBuf then [false] else []) ++ (if xfer.rxBuf then [!xfer.txBuf] else [])

def failsAlone (map : Nat → Option Nat) : Nat → List Bool → Bool
  | _, [] => false
  | n, alone :: rest => if (map n).isSome then failsAlone map (n + 1) rest else alone

theorem mappings_cons (sci : Info) (xfer : Transfer) (rest : List Transfer) :
    mappings sci (xfer :: rest) = mapping sci xfer ++ mappings sci rest := List.flatMap_cons

def Fresh (xfer : Transfer) : Prop := xfer.rxDma = none ∧ xfer.txDma = none

theorem mapping_fresh {xfer : Transfer} (h : Fresh xfer) : mapping sci xfer = [] := by
  simp [mapping, rxMapping, txMapping, h.1, h.2]

theorem mappings_fresh {xfers : List Transfer} (h : ∀ xfer ∈ xfers, Fresh xfer) :
    mappings sci xfers = [] :=
  List.flatMap_eq_nil_iff.mpr (fun xfer hx => mapping_fresh (h xfer hx))

theorem acquire_release (r : Mapping) (dma : Resources Mapping) :
    ((dma.acquire r).release r).held.Perm dma.held ∧
      ((dma.acquire r).release r).misused = dma.misused := by
  have hmem : r ∈ (dma.acquire r).held := List.mem_append_right _ List.mem_cons_self
  rw [release_of_mem hmem]
  refine ⟨?_, rfl⟩
  have hperm : (r :: dma.held).Perm (dma.held ++ [r]) :=
    (List.perm_append_singleton r dma.held).symm
  have herase := hperm.symm.erase r
  rwa [List.erase_cons_head] at herase

structure MapStep (map : Nat → Option Nat) (n : Nat) (xfer : Transfer) (dma : Resources Mapping)
    (r : Bool × Nat × Transfer × Resources Mapping) : Prop where
  held : r.2.2.2.held.Perm (dma.held ++ (rxMapping r.2.2.1 ++ txMapping r.2.2.1))
  misused : r.2.2.2.misused = (dma.misused || (!r.1 && failsAlone map n (mapCalls xfer)))
  fails : ∀ rest, failsAlone map n (mapCalls xfer ++ rest) =
    if r.1 then failsAlone map r.2.1 rest else failsAlone map n (mapCalls xfer)

theorem mapXfer_step (map : Nat → Option Nat) (n : Nat) {xfer : Transfer} (h : Fresh xfer)
    (dma : Resources Mapping) :
    MapStep map n xfer dma (mapXfer map n xfer dma) := by
  obtain ⟨tx, rx, len, bits, speed, change, txDma, rxDma⟩ := xfer
  obtain ⟨rfl, rfl⟩ : rxDma = none ∧ txDma = none := h
  cases tx with
  | false =>
    cases rx with
    | false => constructor <;> simp [mapXfer, mapTx, mapRx, rxMapping, txMapping, mapCalls]
    | true =>
      cases hn : map n with
      | none =>
        constructor <;>
          simp [mapXfer, mapTx, mapRx, rxMapping, txMapping, mapCalls, failsAlone, hn, dmaUnmap]
      | some a =>
        constructor <;>
          simp [mapXfer, mapTx, mapRx, rxMapping, txMapping, mapCalls, failsAlone, hn,
            Resources.acquire]
  | true =>
    cases hn : map n with
    | none =>
      constructor <;>
        simp [mapXfer, mapTx, rxMapping, txMapping, mapCalls, failsAlone, hn]
    | some a =>
      cases rx with
      | false =>
        constructor <;>
          simp [mapXfer, mapTx, mapRx, rxMapping, txMapping, mapCalls, failsAlone, hn,
            Resources.acquire]
      | true =>
        cases hn' : map (n + 1) with
        | none =>
          have hback := acquire_release ⟨a, .toDevice⟩ dma
          constructor <;>
            simp [mapXfer, mapTx, mapRx, rxMapping, txMapping, mapCalls, failsAlone, hn, hn',
              dmaUnmap, hback.1, hback.2]
        | some b =>
          have hswap : (dma.held ++ [(⟨a, .toDevice⟩ : Mapping), ⟨b, .fromDevice⟩]).Perm
              (dma.held ++ [⟨b, .fromDevice⟩, ⟨a, .toDevice⟩]) :=
            (List.Perm.swap _ _ []).append_left dma.held
          constructor <;>
            simp [mapXfer, mapTx, mapRx, rxMapping, txMapping, mapCalls, failsAlone, hn, hn',
              Resources.acquire, hswap]

theorem mapXfers_spec (sci : Info) (map : Nat → Option Nat) (xfers : List Transfer) :
    ∀ n (dma : Resources Mapping), (∀ xfer ∈ xfers, Fresh xfer) →
      (mapXfers sci map n xfers dma).2.2.held.Perm
          (dma.held ++ mappings sci (mapXfers sci map n xfers dma).2.1) ∧
        (mapXfers sci map n xfers dma).2.2.misused =
          (dma.misused || failsAlone map n ((xfers.filter (useDma sci)).flatMap mapCalls)) := by
  induction xfers with
  | nil =>
    intro n dma _
    simp [mapXfers, mappings, failsAlone]
  | cons xfer rest ih =>
    intro n dma hfresh
    have hrest : ∀ x ∈ rest, Fresh x := fun x hx => hfresh x (List.mem_cons_of_mem _ hx)
    rw [mapXfers]
    cases hdma : useDma sci xfer with
    | false =>
      obtain ⟨hheld, hmis⟩ := ih n dma hrest
      have hnone : mapping sci xfer = [] := by rw [mapping, hdma, if_neg Bool.false_ne_true]
      refine ⟨?_, ?_⟩
      · simpa [mappings, hnone] using hheld
      · rw [List.filter_cons_of_neg (ne_true_of_eq_false hdma)]
        exact hmis
    | true =>
      have hlen := mapXfer_len map n xfer dma
      obtain ⟨hheld, hmis, hfails⟩ := mapXfer_step map n
        (hfresh xfer List.mem_cons_self) dma
      generalize mapXfer map n xfer dma = r at hlen hheld hmis hfails
      obtain ⟨ok, n', xfer', dma'⟩ := r
      have hmap : mapping sci xfer' = rxMapping xfer' ++ txMapping xfer' := by
        have huse : useDma sci xfer' = true := by
          rw [← hdma, useDma, useDma, hlen]
        rw [mapping, huse, if_pos rfl]
      rw [← hmap] at hheld
      rw [List.filter_cons_of_pos hdma, List.flatMap_cons, hfails]
      cases ok with
      | true =>
        obtain ⟨hheld', hmis'⟩ := ih n' dma' hrest
        refine ⟨?_, ?_⟩
        · have hall := hheld'.trans (hheld.append_right _)
          rw [List.append_assoc] at hall
          exact hall
        · exact hmis'.trans (by rw [hmis]; simp)
      | false =>
        refine ⟨?_, hmis⟩
        have hnone : mappings sci rest = [] := mappings_fresh hrest
        change dma'.held.Perm (dma.held ++ mappings sci (xfer' :: rest))
        rw [mappings_cons, hnone, List.append_nil]
        exact hheld

/-- The first address that cannot be mapped is that of a receive buffer without
a transmit buffer, for which the invalid address is unmapped. -/
def mapFailsAlone (sci : Info) (map : Nat → Option Nat) (msg : Message) : Bool :=
  !msg.isDmaMapped && failsAlone map 0 ((msg.transfers.filter (useDma sci)).flatMap mapCalls)

def msgMappings (sci : Info) (msg : Message) (xfers : List Transfer) : List Mapping :=
  if msg.isDmaMapped then [] else mappings sci xfers

theorem mapMssg_spec (sci : Info) (map : Nat → Option Nat) (msg : Message)
    (dma : Resources Mapping) :
    (mapMssg sci map msg dma).2.2.held.Perm
        (dma.held ++ msgMappings sci msg (mapMssg sci map msg dma).2.1) ∧
      (mapMssg sci map msg dma).2.2.misused = (dma.misused || mapFailsAlone sci map msg) := by
  rw [mapMssg, msgMappings, mapFailsAlone]
  cases msg.isDmaMapped with
  | true => simp
  | false =>
    have hspec := mapXfers_spec sci map
      (msg.transfers.map (fun xfer => { xfer with rxDma := none, txDma := none })) 0 dma
      (fun xfer hx => by
        obtain ⟨x, -, rfl⟩ := List.mem_map.mp hx
        exact ⟨rfl, rfl⟩)
    rw [List.filter_map, List.flatMap_map] at hspec
    exact hspec

theorem unmapXfer_eq (dma : Resources Mapping) (xfer : Transfer) :
    unmapXfer sci dma xfer = dma.releaseAll (mapping sci xfer) := by
  obtain ⟨tx, rx, len, bits, speed, change, txDma, rxDma⟩ := xfer
  rw [unmapXfer, mapping]
  split
  · cases tx <;> cases rx <;> cases txDma <;> cases rxDma <;> rfl
  · rfl

theorem unmapMssg_eq (sci : Info) (msg : Message) (xfers : List Transfer)
    (dma : Resources Mapping) :
    unmapMssg sci msg xfers dma = dma.releaseAll (msgMappings sci msg xfers) := by
  rw [unmapMssg, msgMappings]
  split
  · rfl
  · induction xfers generalizing dma with
    | nil => rfl
    | cons xfer rest ih =>
      rw [List.foldl_cons, ih, unmapXfer_eq, mappings_cons, releaseAll_append]

end Messages

section Runs

/-- No DMA address is misused, and none is mapped between two messages. -/
structure Unmapped (s : Spi) : Prop where
  clean : s.dma.misused = false
  free : inFlight s.worker = [] → s.dma.held = []

def MapsFirst (sci : Info) (s : Spi) : Act → Prop
  | .beginMsg map => ∀ h, s.worker = .handling h → h.phase = .taken →
      mapFailsAlone sci map h.msg = false
  | _ => True

def holds (sci : Info) : Worker → List Mapping
  | .handling h => if h.phase = .taken then [] else msgMappings sci h.msg h.transfers
  | _ => []

structure Inv (sci : Info) (s : Spi) : Prop where
  clean : s.dma.misused = false
  held : s.dma.held.Perm (holds sci s.worker)

theorem holds_handling {h : Handling} (hp : h.phase ≠ .taken) :
    holds sci (.handling h) = msgMappings sci h.msg h.transfers := if_neg hp

theorem holds_idle {w : Worker} (hw : inFlight w = []) : holds sci w = [] := by
  cases w with
  | handling h => cases hw
  | _ => rfl

theorem Inv.unmapped (hs : Inv sci s) : Unmapped s where
  clean := hs.clean
  free hnone := by
    have hheld := hs.held
    rw [holds_idle hnone] at hheld
    exact hheld.eq_nil

theorem Inv.frame (hs : Inv sci s) (hdma : t.dma = s.dma)
    (hholds : holds sci t.worker = holds sci s.worker) : Inv sci t where
  clean := by
    rw [hdma]
    exact hs.clean
  held := by
    rw [hdma, hholds]
    exact hs.held

theorem Inv.moved (hs : Inv sci s) {h h' : Handling} (hw : s.worker = .handling h)
    (hw' : t.worker = .handling h') (hp : h.phase ≠ .taken ∧ h'.phase ≠ .taken)
    (hsame : h'.msg = h.msg ∧ h'.transfers = h.transfers) (hdma : t.dma = s.dma) : Inv sci t := by
  refine hs.frame hdma ?_
  rw [hw, hw', holds_handling hp.1, holds_handling hp.2, hsame.1, hsame.2]

theorem step_inv (hs : Inv sci s) (ha : MapsFirst sci s a) (hstep : Step sci s a t) :
    Inv sci t := by
  have hne {h : Handling} {p : Phase} (hp : h.phase = p) (hpq : p ≠ .taken) :
      h.phase ≠ .taken := hp ▸ hpq
  cases hstep with
  | work hw => exact hs.frame rfl (by rw [hw]; rfl)
  | stopped hw => exact hs.frame rfl (by rw [hw]; rfl)
  | taken hw => exact hs.frame rfl (by rw [hw]; rfl)
  | @begun map h hw hp =>
    obtain ⟨hheld, hmis⟩ := mapMssg_spec sci map h.msg s.dma
    have hnone := hs.held
    rw [hw, holds, if_pos hp] at hnone
    rw [hnone.eq_nil, List.nil_append] at hheld
    have hphase : (if (mapMssg sci map h.msg s.dma).1 then Phase.next else .out (-enomem)) ≠
        .taken := by split <;> exact Phase.noConfusion
    constructor
    · exact hmis.trans (by rw [hs.clean, ha h hw hp]; rfl)
    · rw [holds_handling hphase]
      exact hheld
  | finished hw hp =>
    exact hs.moved hw rfl ⟨hne hp Phase.noConfusion, Phase.noConfusion⟩ ⟨rfl, rfl⟩ rfl
  | odd hw hp => exact hs.moved hw rfl ⟨hne hp Phase.noConfusion, Phase.noConfusion⟩ ⟨rfl, rfl⟩ rfl
  | started hw hp =>
    exact hs.moved hw rfl ⟨hne hp Phase.noConfusion, Phase.noConfusion⟩ ⟨rfl, rfl⟩ rfl
  | failed hw hp =>
    exact hs.moved hw rfl ⟨hne hp Phase.noConfusion, Phase.noConfusion⟩ ⟨rfl, rfl⟩ rfl
  | polled hw hp =>
    exact hs.moved hw rfl ⟨hne hp Phase.noConfusion, Phase.noConfusion⟩ ⟨rfl, rfl⟩ rfl
  | waited hw hp =>
    exact hs.moved hw rfl ⟨hne hp Phase.noConfusion, Phase.noConfusion⟩ ⟨rfl, rfl⟩ rfl
  | stored hw hp =>
    exact hs.moved hw rfl ⟨hne hp Phase.noConfusion, Phase.noConfusion⟩ ⟨rfl, rfl⟩ rfl
  | @done h status hw hp =>
    have hheld := hs.held
    rw [hw, holds_handling (hne hp Phase.noConfusion)] at hheld
    have hempty := (releaseAll_eq_empty _ s.dma).mpr ⟨hheld, hs.clean⟩
    rw [← unmapMssg_eq] at hempty
    constructor
    · exact congrArg Resources.misused hempty
    · exact (congrArg Resources.held hempty).symm ▸ List.Perm.refl _
  | _ => exact hs.frame rfl rfl

/-- Each message gives back just the addresses that it has mapped, exactly when
none begins in which the first mapping that fails is that of a receive buffer
without a transmit buffer. -/
theorem unmapped_iff (sci : Info) (dev : Nat → Device) (level : Nat → Bool) (as : List Act) :
    Always (step sci) Unmapped (start dev level) as ↔
      Meets (step sci) (MapsFirst sci) (start dev level) as := by
  refine always_iff_meets (fun _ (h : Inv sci _) => h.unmapped) ?_ ?_ as ⟨rfl, List.Perm.refl _⟩
  · intro s a t hs ha hstep
    exact step_inv hs ha (step_spec hstep)
  · intro s a hs ha
    cases a with
    | beginMsg map =>
      obtain ⟨h, hw, hp, hfails⟩ : ∃ h, s.worker = .handling h ∧ h.phase = .taken ∧
          mapFailsAlone sci map h.msg ≠ false := by
        simpa only [MapsFirst, not_forall, exists_prop] using ha
      have hstep : step sci s (.beginMsg map) = some (put (beginMsg sci map h s)) := by
        simp only [step, hw, whileHandling, handle, hp, if_true]
      refine ⟨_, hstep, fun hunmapped => ?_⟩
      have hmis := (mapMssg_spec sci map h.msg s.dma).2
      rw [eq_true_of_ne_false hfails, Bool.or_true] at hmis
      have hclean := hunmapped.clean
      rw [beginMsg, config_eq] at hclean
      exact Bool.noConfusion (hmis.symm.trans hclean)
    | _ => exact absurd trivial ha

end Runs

end LinuxDriver.SpiDma
