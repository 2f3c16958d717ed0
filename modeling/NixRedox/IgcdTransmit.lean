import NixRedox.Igcd
import NixRedox.StepRuns

set_option autoImplicit false

/- Which packets reach the wire through the transmit ring. -/
namespace NixRedox.Igcd

open ByteMemory (Memory)

section Positions

/-- The place of a packet in the ring, by its number. -/
def slotOf (position : Nat) : Slot := Fin.ofNat ringSize position

@[simp] theorem wrapRing_slotOf (position : Nat) :
    wrapRing (slotOf position) = slotOf (position + 1) := by
  apply Fin.ext
  show (position % 256 + 1) &&& (2 ^ 8 - 1) = (position + 1) % 256
  rw [Nat.and_two_pow_sub_one_eq_mod]
  omega

@[simp] theorem slotOf_add_one (position : Nat) : slotOf position + 1 = slotOf (position + 1) := by
  apply Fin.ext
  show (position % 256 + 1 % 256) % 256 = (position + 1) % 256
  omega

/-- Packets less than a ring apart have places of their own. -/
theorem slotOf_ne {first second : Nat} (less : first < second) (near : second < first + ringSize) :
    slotOf first ≠ slotOf second := by
  intro same
  have values : first % 256 = second % 256 := congrArg Fin.val same
  unfold ringSize at near
  omega

theorem slotOf_full (position : Nat) : slotOf (position + ringSize) = slotOf position := by
  apply Fin.ext
  show (position + 256) % 256 = position % 256
  omega

end Positions

section Words

theorem dataLength_command {length : Nat} (small : length ≤ bufSize) (word0 : UInt64)
    (word2 : UInt32) :
    AdvTxDesc.dataLength ⟨word0, advtxdDcmdEop ||| advtxdDcmdRs ||| advtxdDcmdIfcs |||
      advtxdDcmdDext ||| advtxdDtypData ||| UInt32.ofNat length, word2⟩ = length := by
  unfold bufSize at small
  show ((0x2B300000 ||| UInt32.ofNat length) &&& 0xFFFF).toNat = length
  rw [UInt32.toNat_and, UInt32.toNat_or, UInt32.toNat_ofNat]
  show (0x2B300000 ||| length % 2 ^ 32) &&& (2 ^ 16 - 1) = length
  rw [Nat.and_two_pow_sub_one_eq_mod, Nat.or_mod_two_pow]
  have flags : 0x2B300000 % 2 ^ 16 = 0 := rfl
  rw [flags, Nat.zero_or]
  omega

theorem status_announced {length : Nat} :
    (UInt32.ofNat length <<< advtxdPaylenShift) &&& advtxdStatDd = 0 := by
  apply UInt32.toNat_inj.mp
  rw [UInt32.toNat_and, UInt32.toNat_shiftLeft]
  show (UInt32.ofNat length).toNat <<< 14 % 2 ^ 32 &&& (2 ^ 1 - 1) = 0
  rw [Nat.and_two_pow_sub_one_eq_mod, Nat.shiftLeft_eq]
  omega

end Words

section Claims

variable (buffers : TxBuffers)

/-- The call has a slot and has not handed it over. -/
def Call.fills : Call → Prop
  | .copying _ | .settingCommand _ | .settingStatus _ => True
  | _ => False

/-- The slot of the descriptor that the card completes next. -/
def Machine.next (machine : Machine) : Slot :=
  match machine.card with
  | .advancing => machine.tdh + 1
  | _ => machine.tdh

/-- The card has a descriptor to send or to write back. -/
def Machine.busy (machine : Machine) : Prop :=
  machine.card = .writingBack ∨ machine.next ≠ machine.tdt

/-- No packet is lost, repeated or corrupted, and no call waits for a card that sleeps. -/
structure Lossless (machine : Machine) : Prop where
  inOrder : machine.wire <+: machine.written
  untouched : machine.call.fills → ∀ position, machine.completed ≤ position →
    position < machine.written.length → slotOf position ≠ machine.driver.transmitIndex
  noUnderflow : ∀ buf, machine.call = .advancing buf → 0 < machine.driver.transmitRingFree
  awake : ∀ buf, machine.call = .reclaiming buf → machine.driver.transmitRingFree = 0 →
    (machine.ring machine.driver.transmitCleanIndex).status &&& advtxdStatDd = 0 → machine.busy

/-- Packets fit into a buffer, and the card marks what it has written back. -/
def Admitted (_ : Machine) : Event → Prop
  | .writePacket buf => buf.length ≤ bufSize
  | .driver => True
  | .card writeBack => writeBack.status &&& advtxdStatDd ≠ 0

/-- No call finds the ring full of descriptors that the card does not see, and a call fills
no descriptor that has lost the address of its buffer. -/
def Careful (machine : Machine) : Event → Prop
  | .writePacket _ => machine.driver.transmitRingFree = 0 →
      (machine.ring machine.driver.transmitCleanIndex).status &&& advtxdStatDd = 0 → machine.busy
  | .driver => ∀ buf, machine.call = .copying buf →
      (machine.ring machine.driver.transmitIndex).bufferAddr =
        buffers.physical machine.driver.transmitIndex
  | .card _ => True

end Claims

section Invariant

variable (buffers : TxBuffers)

/-- The slot holds the packet for the card. -/
structure Loaded (memory : Memory) (slot : Slot) (desc : AdvTxDesc) (packet : List UInt8) :
    Prop where
  fits : packet.length ≤ bufSize
  addr : desc.bufferAddr = buffers.physical slot
  length : desc.dataLength = packet.length
  announced : desc.status &&& advtxdStatDd = 0
  bytes : ByteMemory.read memory (buffers.physical slot).toNat packet.length = packet

/-- What the call has done to its slot, and to the free descriptors. -/
def Call.progress (memory : Memory) (slot : Slot) (desc : AdvTxDesc) (free : Nat) : Call → Prop
  | .returned => True
  | .reclaiming buf => buf.length ≤ bufSize ∧ free < ringSize
  | .copying buf => buf.length ≤ bufSize ∧ 0 < free
  | .settingCommand buf => buf.length ≤ bufSize ∧ 0 < free ∧
      desc.bufferAddr = buffers.physical slot ∧
      ByteMemory.read memory (buffers.physical slot).toNat buf.length = buf
  | .settingStatus buf => buf.length ≤ bufSize ∧ 0 < free ∧
      desc.bufferAddr = buffers.physical slot ∧
      ByteMemory.read memory (buffers.physical slot).toNat buf.length = buf ∧
      desc.dataLength = buf.length
  | .advancing buf => 0 < free ∧ Loaded buffers memory slot desc buf
  | .writingTail buf => Loaded buffers memory slot desc buf

/-- How many packets the driver has put into the ring. -/
def Machine.filled (machine : Machine) : Nat :=
  match machine.call with
  | .writingTail _ => machine.written.length + 1
  | _ => machine.written.length

def Machine.sent (machine : Machine) : Nat :=
  match machine.card with
  | .writingBack => machine.completed + 1
  | _ => machine.completed

/-- The ring with so many descriptors reclaimed. -/
structure Sound (machine : Machine) (cleaned : Nat) : Prop where
  reclaimed : cleaned ≤ machine.completed
  sentWritten : machine.sent ≤ machine.written.length
  tail : machine.tdt = slotOf machine.written.length
  index : machine.driver.transmitIndex = slotOf machine.filled
  clean : machine.driver.transmitCleanIndex = slotOf cleaned
  free : machine.driver.transmitRingFree + machine.filled = ringSize + cleaned
  head : machine.next = slotOf machine.completed
  wire : machine.wire = machine.written.take machine.sent
  done : ∀ position, cleaned ≤ position → position < machine.completed →
    (machine.ring (slotOf position)).status &&& advtxdStatDd ≠ 0
  pending : ∀ position packet, machine.completed ≤ position →
    machine.written[position]? = some packet →
    Loaded buffers machine.memory (slotOf position) (machine.ring (slotOf position)) packet
  call : machine.call.progress buffers machine.memory (slotOf machine.written.length)
    (machine.ring (slotOf machine.written.length)) machine.driver.transmitRingFree
  waiting : ∀ buf, machine.call = .reclaiming buf → machine.driver.transmitRingFree = 0 →
    cleaned = machine.completed → machine.card = .writingBack

end Invariant

section Steps

variable {buffers : TxBuffers} {machine after : Machine} {cleaned : Nat}

theorem sound_new (memory : Memory) : Sound buffers (Machine.new buffers memory) 0 where
  reclaimed := Nat.le_refl 0
  sentWritten := Nat.le_refl 0
  tail := rfl
  index := rfl
  clean := rfl
  free := rfl
  head := rfl
  wire := rfl
  done := by
    intro position _ below
    exact absurd below (Nat.not_lt_zero position)
  pending := by
    intro position packet _ found
    cases found
  call := trivial
  waiting := by
    intro buf call
    cases call

theorem Sound.room (sound : Sound buffers machine cleaned) :
    machine.written.length ≤ ringSize + cleaned ∧
      (0 < machine.driver.transmitRingFree ∨ (∃ buf, machine.call = .writingTail buf) →
        machine.written.length < ringSize + cleaned) := by
  have free := sound.free
  unfold Machine.filled at free
  cases call : machine.call <;> rw [call] at free <;> dsimp only at free
  case writingTail buf => exact ⟨by omega, fun _ => by omega⟩
  all_goals
    refine ⟨by omega, ?_⟩
    rintro (some_free | ⟨buf, other⟩)
    · omega
    · cases other

/-- A slot that is being filled is not the slot of a packet handed to the card. -/
theorem Sound.apart (sound : Sound buffers machine cleaned)
    (room : machine.written.length < ringSize + cleaned) {position : Nat}
    (handed : machine.completed ≤ position) (below : position < machine.written.length) :
    slotOf position ≠ slotOf machine.written.length := by
  apply slotOf_ne below
  have reclaimed := sound.reclaimed
  omega

theorem Sound.clean_done (sound : Sound buffers machine cleaned)
    (behind : cleaned < machine.completed) :
    (machine.ring machine.driver.transmitCleanIndex).status &&& advtxdStatDd ≠ 0 := by
  rw [sound.clean]
  exact sound.done cleaned (Nat.le_refl _) behind

theorem lossless_of_sound (sound : Sound buffers machine cleaned) : Lossless machine := by
  have progress := sound.call
  have free := sound.free
  have index := sound.index
  constructor
  · rw [sound.wire]
    exact List.take_prefix _ _
  · intro fills position handed below
    have filling : machine.filled = machine.written.length ∧
        0 < machine.driver.transmitRingFree := by
      unfold Machine.filled
      cases call : machine.call <;> rw [call] at fills progress
      case copying buf => exact ⟨rfl, progress.2⟩
      case settingCommand buf => exact ⟨rfl, progress.2.1⟩
      case settingStatus buf => exact ⟨rfl, progress.2.1⟩
      all_goals exact fills.elim
    obtain ⟨same, some_free⟩ := filling
    rw [same] at free index
    rw [index]
    exact sound.apart (by omega) handed below
  · intro buf call
    rw [call] at progress
    exact progress.1
  · intro buf call none undone
    have caught : cleaned = machine.completed := by
      apply Nat.le_antisymm sound.reclaimed
      apply Nat.le_of_not_lt
      intro behind
      exact sound.clean_done behind undone
    exact .inl (sound.waiting buf call none caught)

/-- With nothing reclaimed of a full ring, the head is at the tail. -/
theorem Sound.full (sound : Sound buffers machine cleaned)
    (full : machine.written.length = cleaned + ringSize) (caught : cleaned = machine.completed)
    (busy : machine.busy) : machine.card = .writingBack := by
  cases busy with
  | inl working => exact working
  | inr apart =>
      rw [sound.head, sound.tail, full, slotOf_full, caught] at apart
      exact absurd rfl apart

theorem Sound.clean_announced (sound : Sound buffers machine cleaned)
    (below : cleaned < machine.written.length) (caught : cleaned = machine.completed) :
    (machine.ring machine.driver.transmitCleanIndex).status &&& advtxdStatDd = 0 := by
  rw [sound.clean]
  have found := List.getElem?_eq_getElem below
  exact (sound.pending cleaned _ (Nat.le_of_eq caught.symm) found).announced

theorem sound_begin {buf : List UInt8} (sound : Sound buffers machine cleaned)
    (fits : buf.length ≤ bufSize) (careful : Careful buffers machine (.writePacket buf))
    (stepped : machine.begin buf = some after) : Sound buffers after cleaned := by
  obtain ⟨memory, ring, driver, call, tdt, tdh, card, written, wire, completed⟩ := machine
  cases call with
  | returned =>
      unfold Machine.begin at stepped
      dsimp only at stepped
      split at stepped
      · rename_i none
        cases stepped
        refine { sound with call := ⟨fits, ?_⟩, waiting := ?_ }
        · show driver.transmitRingFree < ringSize
          rw [none]
          decide
        · intro _ _ _ caught
          have count := sound.free
          simp only [Machine.filled] at count
          have full : written.length = cleaned + ringSize := by omega
          have below : cleaned < written.length := by
            rw [full]
            exact Nat.lt_add_of_pos_right (by decide)
          have busy := careful none (sound.clean_announced below caught)
          exact sound.full full caught busy
      · rename_i free
        cases stepped
        refine { sound with call := ⟨fits, Nat.pos_of_ne_zero free⟩, waiting := ?_ }
        intro _ call
        cases call
  | _ => cases stepped

/-- The card touches only the descriptor of the packet it has sent. -/
theorem progress_congr {memory : Memory} {slot : Slot} {desc other : AdvTxDesc} {free : Nat}
    {call : Call} (same : 0 < free ∨ (∃ buf, call = .writingTail buf) → desc = other)
    (progress : call.progress buffers memory slot desc free) :
    call.progress buffers memory slot other free := by
  cases call with
  | returned => trivial
  | reclaiming buf => exact progress
  | copying buf => exact progress
  | settingCommand buf =>
      rw [← same (.inl progress.2.1)]
      exact progress
  | settingStatus buf =>
      rw [← same (.inl progress.2.1)]
      exact progress
  | advancing buf =>
      rw [← same (.inl progress.1)]
      exact progress
  | writingTail buf =>
      rw [← same (.inr ⟨buf, rfl⟩)]
      exact progress

theorem sound_serve {writeBack : AdvTxDescWb} (sound : Sound buffers machine cleaned)
    (marked : writeBack.status &&& advtxdStatDd ≠ 0)
    (stepped : machine.serve writeBack = some after) : Sound buffers after cleaned := by
  obtain ⟨memory, ring, driver, call, tdt, tdh, card, written, wire, completed⟩ := machine
  cases card with
  | fetching =>
      unfold Machine.serve at stepped
      dsimp only at stepped
      split at stepped
      · cases stepped
      rename_i unequal
      cases stepped
      have head : tdh = slotOf completed := sound.head
      have tail : tdt = slotOf written.length := sound.tail
      have below : completed < written.length := by
        apply Nat.lt_of_le_of_ne sound.sentWritten
        intro same
        apply unequal
        rw [head, tail]
        exact congrArg slotOf same
      have loaded := sound.pending completed _ (Nat.le_refl _) (List.getElem?_eq_getElem below)
      refine { sound with sentWritten := below, wire := ?_, waiting := ?_ }
      · show wire ++ _ = written.take (completed + 1)
        have before : wire = written.take completed := sound.wire
        rw [List.take_succ_eq_append_getElem below, ← before, head]
        dsimp only at loaded
        rw [loaded.addr, loaded.length, loaded.bytes]
      · intro _ _ _ _
        rfl
  | writingBack =>
      cases stepped
      have head : tdh = slotOf completed := sound.head
      have below : completed < written.length := sound.sentWritten
      have reclaimed : cleaned ≤ completed := sound.reclaimed
      obtain ⟨room, filling_room⟩ := sound.room
      dsimp only at room filling_room
      have kept : ∀ position, position ≠ completed → cleaned ≤ position →
          position < cleaned + ringSize →
          Function.update ring tdh writeBack.desc (slotOf position) = ring (slotOf position) := by
        intro position other lower upper
        apply Function.update_of_ne
        rw [head]
        rcases Nat.lt_or_gt_of_ne other with before | behind
        · exact slotOf_ne before (by omega)
        · exact (slotOf_ne behind (by omega)).symm
      refine { sound with
        reclaimed := Nat.le_succ_of_le reclaimed, head := ?_, done := ?_, pending := ?_,
        call := ?_, waiting := ?_ }
      · show tdh + 1 = slotOf (completed + 1)
        rw [head, slotOf_add_one]
      · intro position lower upper
        show (Function.update ring tdh writeBack.desc (slotOf position)).status &&& _ ≠ 0
        by_cases same : position = completed
        · rw [same, ← head, Function.update_self]
          exact marked
        · have before : position < completed := Nat.lt_of_le_of_ne (Nat.le_of_lt_succ upper) same
          rw [kept position same lower (by omega)]
          exact sound.done position lower before
      · intro position packet handed found
        have inside : position < written.length := (List.getElem?_eq_some_iff.mp found).1
        have later : completed < position := handed
        show Loaded buffers memory (slotOf position) (Function.update ring tdh _ _) packet
        rw [kept position (Nat.ne_of_gt later) (by omega) (by omega)]
        exact sound.pending position packet (Nat.le_of_lt later) found
      · refine progress_congr ?_ sound.call
        intro filling
        have room := filling_room filling
        exact (kept written.length (Nat.ne_of_gt below) (by omega) (by omega)).symm
      · intro _ _ _ caught
        dsimp only at caught
        omega
  | advancing =>
      cases stepped
      refine { sound with waiting := ?_ }
      intro buf call none caught
      have working := sound.waiting buf call none caught
      cases working

theorem Loaded.write_apart {memory : Memory} {slot other : Slot} {desc : AdvTxDesc}
    {packet data : List UInt8} (loaded : Loaded buffers memory slot desc packet)
    (apart : slot ≠ other) (fits : data.length ≤ bufSize) :
    Loaded buffers (ByteMemory.write memory (buffers.physical other).toNat data) slot desc
      packet where
  fits := loaded.fits
  addr := loaded.addr
  length := loaded.length
  announced := loaded.announced
  bytes := by
    rw [ByteMemory.read_write_apart]
    · exact loaded.bytes
    · have short := loaded.fits
      have places := buffers.apart slot other apart
      omega

theorem sound_reclaim {buf : List UInt8} (sound : Sound buffers machine cleaned)
    (call : machine.call = .reclaiming buf) :
    ∃ cleaned, Sound buffers (machine.reclaim buf) cleaned := by
  obtain ⟨memory, ring, driver, _, tdt, tdh, card, written, wire, completed⟩ := machine
  cases call
  have count : driver.transmitRingFree + written.length = ringSize + cleaned := sound.free
  have clean : driver.transmitCleanIndex = slotOf cleaned := sound.clean
  obtain ⟨fits, few⟩ := sound.call
  dsimp only at few
  unfold Machine.reclaim
  dsimp only
  split
  · rename_i done
    have behind : cleaned < completed := by
      apply Nat.lt_of_le_of_ne sound.reclaimed
      intro caught
      have below : cleaned < written.length := by omega
      exact done (sound.clean_announced below caught)
    have next : wrapRing driver.transmitCleanIndex = slotOf (cleaned + 1) := by
      rw [clean, wrapRing_slotOf]
    refine ⟨cleaned + 1, ?_⟩
    have some_done : ∀ position, cleaned + 1 ≤ position → position < completed →
        (ring (slotOf position)).status &&& advtxdStatDd ≠ 0 := by
      intro position lower
      exact sound.done position (Nat.le_of_succ_le lower)
    split
    · refine { sound with
        reclaimed := behind, clean := next, done := some_done, free := ?_, call := ?_,
        waiting := ?_ }
      · show driver.transmitRingFree + 1 + written.length = ringSize + (cleaned + 1)
        omega
      · exact ⟨fits, Nat.succ_pos _⟩
      · intro _ call
        cases call
    · rename_i room
      refine { sound with
        reclaimed := behind, clean := next, done := some_done, free := ?_, call := ?_,
        waiting := ?_ }
      · show driver.transmitRingFree + 1 + written.length = ringSize + (cleaned + 1)
        omega
      · exact ⟨fits, Nat.lt_of_not_le room⟩
      · intro _ _ none
        cases none
  · split
    · rename_i free
      refine ⟨cleaned, { sound with call := ⟨fits, free⟩, waiting := ?_ }⟩
      intro _ call
      cases call
    · split
      · rename_i all
        exact absurd few (Nat.not_lt.mpr all)
      · exact ⟨cleaned, sound⟩

theorem take_sentLength {buf : List UInt8} (fits : buf.length ≤ bufSize) :
    buf.take (sentLength buf) = buf := by
  rw [sentLength, Nat.min_eq_left fits, List.take_length]

theorem sound_copy {buf : List UInt8} (sound : Sound buffers machine cleaned)
    (careful : Careful buffers machine .driver) (call : machine.call = .copying buf)
    (stepped : machine.drive buffers = some after) : Sound buffers after cleaned := by
  have room := sound.room.2
  have apart := @Sound.apart _ _ _ sound
  obtain ⟨memory, ring, driver, _, tdt, tdh, card, written, wire, completed⟩ := machine
  cases call
  cases stepped
  obtain ⟨fits, free⟩ := sound.call
  have index : driver.transmitIndex = slotOf written.length := sound.index
  have addr : (ring driver.transmitIndex).bufferAddr = buffers.physical driver.transmitIndex :=
    careful buf rfl
  refine { sound with pending := ?_, call := ⟨fits, free, ?_, ?_⟩, waiting := ?_ }
  · intro position packet handed found
    have below : position < written.length := (List.getElem?_eq_some_iff.mp found).1
    dsimp only
    rw [take_sentLength fits, index]
    exact (sound.pending position packet handed found).write_apart
      (apart (room (.inl free)) handed below) fits
  · dsimp only
    rw [← index]
    exact addr
  · dsimp only
    rw [take_sentLength fits, index]
    exact ByteMemory.read_write
  · intro _ call
    cases call

/-- Filling the slot of the next packet leaves the packets handed over alone. -/
theorem Sound.pending_update (sound : Sound buffers machine cleaned)
    (room : machine.written.length < ringSize + cleaned) (desc : AdvTxDesc) {position : Nat}
    {packet : List UInt8} (handed : machine.completed ≤ position)
    (found : machine.written[position]? = some packet) :
    Loaded buffers machine.memory (slotOf position)
      (Function.update machine.ring (slotOf machine.written.length) desc (slotOf position))
      packet := by
  have below : position < machine.written.length := (List.getElem?_eq_some_iff.mp found).1
  rw [Function.update_of_ne (sound.apart room handed below)]
  exact sound.pending position packet handed found

/-- What is done stays done when the slot of the next packet is filled. -/
theorem Sound.done_update (sound : Sound buffers machine cleaned)
    (room : machine.written.length < ringSize + cleaned) (desc : AdvTxDesc) {position : Nat}
    (lower : cleaned ≤ position) (upper : position < machine.completed) :
    (Function.update machine.ring (slotOf machine.written.length) desc
      (slotOf position)).status &&& advtxdStatDd ≠ 0 := by
  have sent := sound.sentWritten
  have below : position < machine.written.length := by
    unfold Machine.sent at sent
    split at sent <;> omega
  rw [Function.update_of_ne (slotOf_ne below (by omega))]
  exact sound.done position lower upper

theorem sound_command {buf : List UInt8} (sound : Sound buffers machine cleaned)
    (call : machine.call = .settingCommand buf) (stepped : machine.drive buffers = some after) :
    Sound buffers after cleaned := by
  have room := sound.room.2
  have pending := @Sound.pending_update _ _ _ sound
  have done := @Sound.done_update _ _ _ sound
  obtain ⟨memory, ring, driver, _, tdt, tdh, card, written, wire, completed⟩ := machine
  cases call
  cases stepped
  obtain ⟨fits, free, addr, bytes⟩ := sound.call
  have index : driver.transmitIndex = slotOf written.length := sound.index
  have below := room (.inl free)
  refine { sound with done := ?_, pending := ?_, call := ⟨fits, free, ?_, bytes, ?_⟩,
                      waiting := ?_ }
  · dsimp only
    rw [index]
    intro position lower upper
    exact done below _ lower upper
  · dsimp only
    rw [index]
    intro position packet handed found
    exact pending below _ handed found
  · dsimp only
    rw [index, Function.update_self]
    exact addr
  · dsimp only
    rw [index, Function.update_self, sentLength, Nat.min_eq_left fits]
    exact dataLength_command fits _ _
  · intro _ call
    cases call

theorem sound_status {buf : List UInt8} (sound : Sound buffers machine cleaned)
    (call : machine.call = .settingStatus buf) (stepped : machine.drive buffers = some after) :
    Sound buffers after cleaned := by
  have room := sound.room.2
  have pending := @Sound.pending_update _ _ _ sound
  have done := @Sound.done_update _ _ _ sound
  obtain ⟨memory, ring, driver, _, tdt, tdh, card, written, wire, completed⟩ := machine
  cases call
  cases stepped
  obtain ⟨fits, free, addr, bytes, length⟩ := sound.call
  have index : driver.transmitIndex = slotOf written.length := sound.index
  have below := room (.inl free)
  refine { sound with done := ?_, pending := ?_, call := ⟨free, ?_⟩, waiting := ?_ }
  · dsimp only
    rw [index]
    intro position lower upper
    exact done below _ lower upper
  · dsimp only
    rw [index]
    intro position packet handed found
    exact pending below _ handed found
  · dsimp only
    rw [index, Function.update_self]
    exact ⟨fits, addr, length, status_announced, bytes⟩
  · intro _ call
    cases call

theorem sound_advance {buf : List UInt8} (sound : Sound buffers machine cleaned)
    (call : machine.call = .advancing buf) (stepped : machine.drive buffers = some after) :
    Sound buffers after cleaned := by
  obtain ⟨memory, ring, driver, _, tdt, tdh, card, written, wire, completed⟩ := machine
  cases call
  cases stepped
  obtain ⟨free, loaded⟩ := sound.call
  have index : driver.transmitIndex = slotOf written.length := sound.index
  refine { sound with index := ?_, free := ?_, call := loaded, waiting := ?_ }
  · show wrapRing driver.transmitIndex = slotOf (written.length + 1)
    rw [index, wrapRing_slotOf]
  · have total : driver.transmitRingFree + written.length = ringSize + cleaned := sound.free
    have less : usizePred driver.transmitRingFree = driver.transmitRingFree - 1 :=
      if_neg (Nat.ne_of_gt free)
    show usizePred driver.transmitRingFree + (written.length + 1) = ringSize + cleaned
    rw [less]
    dsimp only at free
    omega
  · intro _ call
    cases call

theorem sound_tail {buf : List UInt8} (sound : Sound buffers machine cleaned)
    (call : machine.call = .writingTail buf) (stepped : machine.drive buffers = some after) :
    Sound buffers after cleaned := by
  obtain ⟨memory, ring, driver, _, tdt, tdh, card, written, wire, completed⟩ := machine
  cases call
  cases stepped
  have loaded : Loaded buffers memory _ _ buf := sound.call
  have longer : (written ++ [buf]).length = written.length + 1 := by simp
  have index : driver.transmitIndex = slotOf (written.length + 1) := sound.index
  have sent := sound.sentWritten
  refine { sound with sentWritten := ?_, tail := ?_, index := ?_, free := ?_, wire := ?_,
                      pending := ?_, call := trivial, waiting := ?_ }
  · dsimp only
    rw [longer]
    exact Nat.le_succ_of_le sent
  · dsimp only
    rw [longer, index]
  · show driver.transmitIndex = slotOf (written ++ [buf]).length
    rw [longer, index]
  · show driver.transmitRingFree + (written ++ [buf]).length = ringSize + cleaned
    rw [longer]
    exact sound.free
  · exact sound.wire.trans (List.take_append_of_le_length sent).symm
  · intro position packet handed found
    by_cases last : position = written.length
    · subst last
      rw [List.getElem?_concat_length] at found
      cases found
      exact loaded
    · have inside : position < (written ++ [buf]).length := (List.getElem?_eq_some_iff.mp found).1
      rw [longer] at inside
      have earlier : position < written.length := by omega
      rw [List.getElem?_append_left earlier] at found
      exact sound.pending position packet handed found
  · intro _ call
    cases call

theorem sound_drive (sound : Sound buffers machine cleaned)
    (careful : Careful buffers machine .driver) (stepped : machine.drive buffers = some after) :
    ∃ cleaned, Sound buffers after cleaned := by
  cases call : machine.call with
  | returned =>
      unfold Machine.drive at stepped
      rw [call] at stepped
      cases stepped
  | reclaiming buf =>
      unfold Machine.drive at stepped
      rw [call] at stepped
      cases stepped
      exact sound_reclaim sound call
  | copying buf => exact ⟨cleaned, sound_copy sound careful call stepped⟩
  | settingCommand buf => exact ⟨cleaned, sound_command sound call stepped⟩
  | settingStatus buf => exact ⟨cleaned, sound_status sound call stepped⟩
  | advancing buf => exact ⟨cleaned, sound_advance sound call stepped⟩
  | writingTail buf => exact ⟨cleaned, sound_tail sound call stepped⟩

end Steps

section Runs

/-- Every run loses nothing in which a call that finds no free descriptor finds the card at
work or a descriptor completed, and every descriptor that is filled still has the address of
its buffer: the card takes a full ring for an empty one, and a write-back overwrites the
address. -/
theorem transmit_lossless (buffers : TxBuffers) (memory : Memory) (events : List Event)
    (admitted : StepRuns.EachMeets (Machine.step buffers) Admitted
      (Machine.new buffers memory) events)
    (careful : StepRuns.EachMeets (Machine.step buffers) (Careful buffers)
      (Machine.new buffers memory) events) :
    StepRuns.Throughout (Machine.step buffers) Lossless (Machine.new buffers memory) events := by
  have keeps : ∀ machine event after, (∃ cleaned, Sound buffers machine cleaned) →
      Admitted machine event ∧ Careful buffers machine event →
      machine.step buffers event = some after → ∃ cleaned, Sound buffers after cleaned := by
    intro machine event after ⟨cleaned, sound⟩ ⟨admitted, careful⟩ stepped
    cases event with
    | writePacket buf => exact ⟨cleaned, sound_begin sound admitted careful stepped⟩
    | driver => exact sound_drive sound careful stepped
    | card writeBack => exact ⟨cleaned, sound_serve sound admitted stepped⟩
  have always := StepRuns.throughout_of_eachMeets keeps ⟨0, sound_new memory⟩
    fun done event rest before split run =>
      ⟨admitted done event rest before split run, careful done event rest before split run⟩
  intro done rest reached split run
  obtain ⟨cleaned, sound⟩ := always done rest reached split run
  exact lossless_of_sound sound

/-- Buffers one after the other. -/
def rowOfBuffers : TxBuffers where
  physical := fun slot => UInt64.ofNat (bufSize * slot.val)
  apart := by
    intro first second other
    have apart : first.val ≠ second.val := fun same => other (Fin.ext same)
    have below := first.isLt
    have above := second.isLt
    unfold ringSize at below above
    unfold bufSize
    rw [UInt64.toNat_ofNat', UInt64.toNat_ofNat']
    omega

def onePacket : List Event :=
  [.writePacket [1, 2], .driver, .driver, .driver, .driver, .driver, .card ⟨0, 0, 1⟩,
    .card ⟨0, 0, 1⟩, .card ⟨0, 0, 1⟩]

theorem one_packet_lossless :
    StepRuns.Throughout (Machine.step rowOfBuffers) Lossless
      (Machine.new rowOfBuffers fun _ => 0) onePacket := by
  apply transmit_lossless
  · apply StepRuns.eachMeets_of_forall
    simp [onePacket, Admitted, bufSize, advtxdStatDd]
  · simp [onePacket, StepRuns.eachMeets_cons, StepRuns.eachMeets_nil, Machine.step, Machine.begin,
      Machine.drive, Machine.serve, Machine.new, Careful, ringSize, AdvTxDesc.bufferAddr]

/-- The card has not looked at any of so many packets. -/
structure Unserved (machine : Machine) (count : Nat) : Prop where
  call : machine.call = .returned
  free : machine.driver.transmitRingFree = ringSize - count
  index : machine.driver.transmitIndex = slotOf count
  clean : machine.driver.transmitCleanIndex = 0
  tail : machine.tdt = slotOf count
  head : machine.tdh = 0
  card : machine.card = .fetching
  first : (machine.ring 0).status &&& advtxdStatDd = 0

def oneByte : List Event := [.writePacket [0], .driver, .driver, .driver, .driver, .driver]

theorem unserved_write (buffers : TxBuffers) {machine : Machine} {count : Nat}
    (unserved : Unserved machine count) (room : count < ringSize) :
    ∃ after, StepRuns.runAll (Machine.step buffers) machine oneByte = some after ∧
      Unserved after (count + 1) := by
  obtain ⟨memory, ring, ⟨free, index, clean⟩, call, tdt, tdh, card, written, wire, completed⟩ :=
    machine
  obtain ⟨call, free, index, clean, tail, head, card, first⟩ := unserved
  dsimp only at call free index clean tail head card first
  subst call free index clean tail head card
  have some_free : ringSize - count ≠ 0 := Nat.sub_ne_zero_of_lt room
  refine ⟨_, by simp [oneByte, StepRuns.runAll, Machine.step, Machine.begin, Machine.drive,
    some_free]; rfl, ?_⟩
  refine ⟨rfl, ?_, rfl, rfl, rfl, rfl, rfl, ?_⟩
  · show usizePred (ringSize - count) = ringSize - (count + 1)
    rw [usizePred, if_neg some_free]
    omega
  · dsimp only
    by_cases same : (0 : Slot) = slotOf count
    · rw [same, Function.update_self]
      exact status_announced
    · rw [Function.update_of_ne same]
      exact first

theorem unserved_writes (buffers : TxBuffers) (memory : Memory) {count : Nat}
    (room : count ≤ ringSize) :
    ∃ after, StepRuns.runAll (Machine.step buffers) (Machine.new buffers memory)
      (List.replicate count oneByte).flatten = some after ∧ Unserved after count := by
  induction count with
  | zero => exact ⟨_, rfl, rfl, rfl, rfl, rfl, rfl, rfl, rfl, UInt32.zero_and⟩
  | succ count ih =>
      obtain ⟨before, ran, unserved⟩ := ih (Nat.le_of_succ_le room)
      obtain ⟨after, last, served⟩ := unserved_write buffers unserved room
      refine ⟨after, ?_, served⟩
      rw [List.replicate_succ', List.flatten_append, StepRuns.runAll_append, ran]
      simpa using last

/-- The packet after a ring full of packets waits for a card that sees nothing to send. -/
theorem full_ring_stalls :
    ¬ ∀ (buffers : TxBuffers) (memory : Memory) (events : List Event),
        StepRuns.EachMeets (Machine.step buffers) Admitted (Machine.new buffers memory) events →
          StepRuns.Throughout (Machine.step buffers) Lossless (Machine.new buffers memory)
            events := by
  intro always
  let events := (List.replicate ringSize oneByte).flatten ++ [.writePacket [0]]
  obtain ⟨machine, ran, unserved⟩ := unserved_writes rowOfBuffers (fun _ => 0) (Nat.le_refl _)
  have admitted : StepRuns.EachMeets (Machine.step rowOfBuffers) Admitted
      (Machine.new rowOfBuffers fun _ => 0) events := by
    apply StepRuns.eachMeets_of_forall
    intro event inside state
    have known : event = .writePacket [0] ∨ event = .driver := by
      simp only [events, oneByte, List.mem_append, List.mem_flatten, List.mem_replicate,
        List.mem_cons, List.not_mem_nil, or_false] at inside
      rcases inside with ⟨_, ⟨_, rfl⟩, inside⟩ | same
      · simpa using inside
      · exact .inl same
    rcases known with rfl | rfl
    · exact Nat.le_of_ble_eq_true rfl
    · trivial
  have none : machine.driver.transmitRingFree = 0 := unserved.free
  let waiting : Machine := { machine with call := .reclaiming [0] }
  have called : machine.begin [0] = some waiting := by
    rw [Machine.begin, unserved.call]
    exact if_pos none
  have reached : StepRuns.runAll (Machine.step rowOfBuffers)
      (Machine.new rowOfBuffers fun _ => 0) events = some waiting := by
    rw [StepRuns.runAll_append, ran, Option.bind_some, StepRuns.runAll, Machine.step, called]
    rfl
  have lossless := always rowOfBuffers (fun _ => 0) events admitted events [] waiting
    (List.append_nil _) reached
  have first : (machine.ring machine.driver.transmitCleanIndex).status &&& advtxdStatDd = 0 := by
    rw [unserved.clean]
    exact unserved.first
  rcases lossless.awake [0] rfl none first with working | apart
  · have asleep : machine.card = .writingBack := working
    rw [unserved.card] at asleep
    cases asleep
  · apply apart
    show machine.next = machine.tdt
    rw [Machine.next, unserved.card, unserved.head, unserved.tail]
    decide

end Runs

end NixRedox.Igcd
