import NixRedox.IgcdTransmit

set_option autoImplicit false

/- The receive side of the I225 network driver (`igcd`): which frames `read_packet` returns
while the card fills the descriptor ring. -/
namespace NixRedox.IgcdReceive

open ByteMemory (Memory)
open Igcd (Slot ringSize bufSize slotOf wrapRing slotOf_add_one slotOf_ne wrapRing_slotOf)

section Descriptors

def rxdadvStatDd : UInt32 := 1

/-- The 16 bytes of a receive descriptor. In the read layout the first word is `pkt_addr`
and the three fields together are `hdr_addr`; in the write-back layout the first word is
`rss_hash` and `pkt_info`. -/
structure AdvRxDesc where
  word0 : UInt64
  statusError : UInt32
  length : UInt16
  vlan : UInt16
  deriving DecidableEq, Repr

def AdvRxDesc.pktAddr (desc : AdvRxDesc) : UInt64 := desc.word0

def AdvRxDesc.setPktAddr (desc : AdvRxDesc) (addr : UInt64) : AdvRxDesc :=
  { desc with word0 := addr }

def AdvRxDesc.setHdrAddr (desc : AdvRxDesc) (addr : UInt64) : AdvRxDesc :=
  ⟨desc.word0, addr.toUInt32, (addr >>> 32).toUInt16, (addr >>> 48).toUInt16⟩

/-- A frame of 1 to 2048 bytes. -/
structure Frame where
  bytes : List UInt8
  nonempty : 0 < bytes.length
  fits : bytes.length ≤ bufSize

/-- What the card writes back besides the length; the descriptor is done. -/
structure Completion where
  rssHash : UInt32
  pktInfo : UInt32
  statusError : UInt32
  vlan : UInt16
  done : statusError &&& rxdadvStatDd ≠ 0

/-- The write-back layout for a frame. -/
def Completion.desc (completion : Completion) (frame : Frame) : AdvRxDesc where
  word0 := completion.rssHash.toUInt64 ||| completion.pktInfo.toUInt64 <<< 32
  statusError := completion.statusError
  length := UInt16.ofNat frame.bytes.length
  vlan := completion.vlan

/-- The receive buffers are allocated like the transmit buffers. -/
abbrev RxBuffers := Igcd.TxBuffers

end Descriptors

section Machine

/-- A packet of `read_packet`: the size of the caller's buffer and what was copied into it. -/
structure Packet where
  capacity : Nat
  bytes : List UInt8

/-- How far a call of `read_packet` is: what it does next. -/
inductive Call where
  | returned
  | checking (capacity : Nat)
  | measuring (capacity : Nat)
  | copying (capacity pktLen : Nat)
  | settingPktAddr (packet : Packet)
  | settingHdrAddr (packet : Packet)
  | writingTail (packet : Packet)
  | advancing (packet : Packet)

structure Machine where
  /-- The memory of the receive buffers; the ring is not part of it. -/
  memory : Memory
  ring : Slot → AdvRxDesc
  receiveIndex : Slot
  call : Call
  rdt : Slot
  rdh : Slot
  /-- The frame that is in its buffer and not written back yet. -/
  storing : Option Frame
  /-- The frames the card has written back. -/
  stored : List Frame
  /-- The packets of the calls that have returned one. -/
  packets : List Packet

variable (buffers : RxBuffers)

/-- After `Igc::new`: `init_rx` points every descriptor of the zeroed ring to its buffer and
gives the card all but the last. -/
def Machine.new (memory : Memory) : Machine where
  memory := memory
  ring := fun slot => AdvRxDesc.setHdrAddr (AdvRxDesc.setPktAddr ⟨0, 0, 0, 0⟩
    (buffers.physical slot)) 0
  receiveIndex := 0
  call := .returned
  rdt := 255
  rdh := 0
  storing := none
  stored := []
  packets := []

inductive Event where
  | readPacket (capacity : Nat)
  | driver
  | frame (frame : Frame)
  | writeBack (completion : Completion)

def Machine.availableForRead (machine : Machine) : Nat :=
  let desc := machine.ring machine.receiveIndex
  if desc.statusError &&& rxdadvStatDd ≠ 0 then desc.length.toNat else 0

def Machine.begin (machine : Machine) (capacity : Nat) : Option Machine :=
  match machine.call with
  | .returned => some { machine with call := .checking capacity }
  | _ => none

/-- The next step of the call that is going on; none when it panics. -/
def Machine.drive (machine : Machine) : Option Machine :=
  let index := machine.receiveIndex
  let desc := machine.ring index
  match machine.call with
  | .returned => none
  | .checking capacity =>
      if desc.statusError &&& rxdadvStatDd ≠ 0 then
        some { machine with call := .measuring capacity }
      else
        some { machine with call := .returned }
  | .measuring capacity =>
      let pktLen := desc.length.toNat
      if pktLen ≤ bufSize then some { machine with call := .copying capacity pktLen } else none
  | .copying capacity pktLen =>
      let data := ByteMemory.read machine.memory (buffers.physical index).toNat pktLen
      let i := min capacity data.length
      some { machine with call := .settingPktAddr ⟨capacity, data.take i⟩ }
  | .settingPktAddr packet =>
      some { machine with
        ring := Function.update machine.ring index (desc.setPktAddr (buffers.physical index))
        call := .settingHdrAddr packet }
  | .settingHdrAddr packet =>
      some { machine with
        ring := Function.update machine.ring index (desc.setHdrAddr 0)
        call := .writingTail packet }
  | .writingTail packet => some { machine with rdt := index, call := .advancing packet }
  | .advancing packet =>
      some { machine with
        receiveIndex := wrapRing index
        packets := machine.packets ++ [packet]
        call := .returned }

/-- A frame arrives: it is dropped when the card has no descriptor left. -/
def Machine.receive (machine : Machine) (frame : Frame) : Option Machine :=
  match machine.storing with
  | some _ => none
  | none =>
      if machine.rdh = machine.rdt then
        some machine
      else
        let addr := (machine.ring machine.rdh).pktAddr
        some { machine with
          memory := ByteMemory.write machine.memory addr.toNat frame.bytes
          storing := some frame }

def Machine.complete (machine : Machine) (completion : Completion) : Option Machine :=
  match machine.storing with
  | none => none
  | some frame =>
      some { machine with
        ring := Function.update machine.ring machine.rdh (completion.desc frame)
        rdh := machine.rdh + 1
        storing := none
        stored := machine.stored ++ [frame] }

def Machine.step (machine : Machine) : Event → Option Machine
  | .readPacket capacity => machine.begin capacity
  | .driver => machine.drive buffers
  | .frame frame => machine.receive frame
  | .writeBack completion => machine.complete completion

end Machine

section Claims

variable (buffers : RxBuffers)

/-- The card may still write the descriptor: it lies from the head up to the tail. -/
def Machine.owned (machine : Machine) (slot : Slot) : Prop :=
  (slot - machine.rdh).val < (machine.rdt - machine.rdh).val

/-- The call has found a frame in its descriptor. -/
def Call.holds : Call → Prop
  | .returned | .checking _ => False
  | _ => True

/-- Every stored frame is delivered once and in order, and neither side uses what the other
one owns. A call that finds the card's descriptor only reads its status. -/
structure Delivers (machine : Machine) : Prop where
  inOrder : ∀ (position : Nat) (packet : Packet), machine.packets[position]? = some packet →
    ∃ frame : Frame, machine.stored[position]? = some frame ∧
      packet.bytes = frame.bytes.take packet.capacity
  whole : (∀ packet ∈ machine.packets, bufSize ≤ packet.capacity) →
    machine.packets.map Packet.bytes <+: machine.stored.map Frame.bytes
  available : machine.call = .returned → machine.availableForRead =
    (machine.stored[machine.packets.length]?.map fun frame => frame.bytes.length).getD 0
  untouched : machine.call.holds → ¬ machine.owned machine.receiveIndex
  polls : ∀ capacity, machine.call = .checking capacity → machine.owned machine.receiveIndex →
    machine.drive buffers = some { machine with call := .returned }
  addressed : ∀ slot, machine.owned slot →
    (machine.ring slot).pktAddr = buffers.physical slot
  proceeds : machine.call ≠ .returned → (machine.drive buffers).isSome = true

end Claims

section Invariant

variable (buffers : RxBuffers)

/-- The descriptor is ready for a frame. -/
structure Armed (slot : Slot) (desc : AdvRxDesc) : Prop where
  addr : desc.pktAddr = buffers.physical slot
  undone : desc.statusError &&& rxdadvStatDd = 0

/-- The slot holds the frame for the driver. -/
structure Filled (memory : Memory) (slot : Slot) (desc : AdvRxDesc) (frame : Frame) : Prop where
  done : desc.statusError &&& rxdadvStatDd ≠ 0
  length : desc.length.toNat = frame.bytes.length
  bytes : ByteMemory.read memory (buffers.physical slot).toNat frame.bytes.length = frame.bytes

def Cut (packet : Packet) (frame : Frame) : Prop :=
  packet.bytes = frame.bytes.take packet.capacity

/-- What the call knows of the next frame, and of its descriptor. -/
def Call.progress (slot : Slot) (desc : AdvRxDesc) (next : Option Frame) : Call → Prop
  | .returned | .checking _ => True
  | .measuring _ => ∃ frame, next = some frame
  | .copying _ pktLen => ∃ frame, next = some frame ∧ pktLen = frame.bytes.length
  | .settingPktAddr packet => ∃ frame, next = some frame ∧ Cut packet frame
  | .settingHdrAddr packet =>
      (∃ frame, next = some frame ∧ Cut packet frame) ∧ desc.pktAddr = buffers.physical slot
  | .writingTail packet =>
      (∃ frame, next = some frame ∧ Cut packet frame) ∧ Armed buffers slot desc
  | .advancing packet => ∃ frame, next = some frame ∧ Cut packet frame

/-- How many frames have been copied out of the ring. -/
def Machine.copied (machine : Machine) : Nat :=
  match machine.call with
  | .settingPktAddr _ | .settingHdrAddr _ | .writingTail _ | .advancing _ =>
      machine.packets.length + 1
  | _ => machine.packets.length

/-- How many descriptors the card has been given. -/
def Machine.given (machine : Machine) : Nat :=
  match machine.call with
  | .advancing _ => machine.packets.length + ringSize
  | _ => machine.packets.length + (ringSize - 1)

structure Sound (machine : Machine) : Prop where
  index : machine.receiveIndex = slotOf machine.packets.length
  head : machine.rdh = slotOf machine.stored.length
  tail : machine.rdt = slotOf machine.given
  copiedStored : machine.copied ≤ machine.stored.length
  storedGiven : machine.stored.length ≤ machine.given
  cut : ∀ (position : Nat) (packet : Packet), machine.packets[position]? = some packet →
    ∃ frame, machine.stored[position]? = some frame ∧ Cut packet frame
  filled : ∀ (position : Nat) (frame : Frame), machine.copied ≤ position →
    machine.stored[position]? = some frame →
    Filled buffers machine.memory (slotOf position) (machine.ring (slotOf position)) frame
  armed : ∀ position, machine.stored.length ≤ position → position ≤ machine.given →
    Armed buffers (slotOf position) (machine.ring (slotOf position))
  storing : ∀ frame, machine.storing = some frame → machine.stored.length < machine.given ∧
    ByteMemory.read machine.memory (buffers.physical machine.rdh).toNat frame.bytes.length =
      frame.bytes
  call : machine.call.progress buffers machine.receiveIndex (machine.ring machine.receiveIndex)
    machine.stored[machine.packets.length]?

end Invariant

section Positions

variable {first second : Nat}

/-- The slots from one position up to another, less than a ring behind it. -/
theorem between_slots (ordered : first ≤ second) (near : second < first + ringSize) (slot : Slot) :
    (slot - slotOf first).val < (slotOf second - slotOf first).val ↔
      ∃ position, first ≤ position ∧ position < second ∧ slotOf position = slot := by
  have bound := slot.isLt
  have distance : (slotOf second - slotOf first).val = second - first := by
    show (256 - first % 256 + second % 256) % 256 = second - first
    unfold ringSize at near
    omega
  have value : (slot - slotOf first).val = (256 - first % 256 + slot.val) % 256 := rfl
  rw [distance, value]
  unfold ringSize at bound
  constructor
  · intro less
    refine ⟨first + (256 - first % 256 + slot.val) % 256, Nat.le_add_right _ _, by omega, ?_⟩
    apply Fin.ext
    show (first + (256 - first % 256 + slot.val) % 256) % 256 = slot.val
    omega
  · rintro ⟨position, lower, upper, rfl⟩
    unfold ringSize at near
    show (256 - first % 256 + position % 256) % 256 < second - first
    omega

end Positions

section Steps

variable {buffers : RxBuffers} {machine after : Machine}

/-- Clearing `hdr_addr` clears the done bit of the other layout. -/
theorem armed_setHdrAddr {slot : Slot} {desc : AdvRxDesc}
    (addr : desc.pktAddr = buffers.physical slot) : Armed buffers slot (desc.setHdrAddr 0) where
  addr := addr
  undone := by
    show (0 : UInt64).toUInt32 &&& (1 : UInt32) = 0
    decide

theorem sound_new (memory : Memory) : Sound buffers (Machine.new buffers memory) where
  index := rfl
  head := rfl
  tail := rfl
  copiedStored := Nat.le_refl 0
  storedGiven := Nat.zero_le _
  cut := by
    intro position packet found
    cases found
  filled := by
    intro position frame _ found
    cases found
  armed := by
    intro position _ _
    exact armed_setHdrAddr rfl
  storing := by
    intro frame storing
    cases storing
  call := trivial

/-- The descriptors given to the card are at most those not copied out, one ring. -/
theorem Sound.room (sound : Sound buffers machine) :
    machine.given < machine.stored.length + ringSize := by
  have copied := sound.copiedStored
  unfold Machine.copied at copied
  unfold Machine.given ringSize
  cases call : machine.call <;> rw [call] at copied <;> dsimp only at copied ⊢ <;> omega

theorem Sound.owned_iff (sound : Sound buffers machine) (slot : Slot) :
    machine.owned slot ↔ ∃ position, machine.stored.length ≤ position ∧
      position < machine.given ∧ slotOf position = slot := by
  unfold Machine.owned
  rw [sound.head, sound.tail]
  exact between_slots sound.storedGiven sound.room slot

theorem sound_begin {capacity : Nat} (sound : Sound buffers machine)
    (stepped : machine.begin capacity = some after) : Sound buffers after := by
  obtain ⟨memory, ring, index, call, rdt, rdh, storing, stored, packets⟩ := machine
  cases call with
  | returned =>
      cases stepped
      exact { sound with call := trivial }
  | _ => cases stepped

theorem Filled.write_apart {memory : Memory} {slot other : Slot} {desc : AdvRxDesc}
    {frame : Frame} {data : List UInt8} (filled : Filled buffers memory slot desc frame)
    (apart : slot ≠ other) (fits : data.length ≤ bufSize) :
    Filled buffers (ByteMemory.write memory (buffers.physical other).toNat data) slot desc
      frame where
  done := filled.done
  length := filled.length
  bytes := by
    rw [ByteMemory.read_write_apart]
    · exact filled.bytes
    · have short := frame.fits
      have places := buffers.apart slot other apart
      omega

theorem given_le_packets (machine : Machine) :
    machine.given ≤ machine.packets.length + ringSize := by
  unfold Machine.given ringSize
  cases machine.call <;> dsimp only <;> omega

theorem packets_le_copied (machine : Machine) : machine.packets.length ≤ machine.copied := by
  unfold Machine.copied
  cases machine.call <;> dsimp only <;> omega

theorem sound_receive {frame : Frame} (sound : Sound buffers machine)
    (stepped : machine.receive frame = some after) : Sound buffers after := by
  have given_le := given_le_packets machine
  have packets_le := packets_le_copied machine
  obtain ⟨memory, ring, index, call, rdt, rdh, storing, stored, packets⟩ := machine
  cases storing with
  | some other => cases stepped
  | none =>
      unfold Machine.receive at stepped
      dsimp only at stepped
      split at stepped
      · cases stepped
        exact sound
      rename_i unequal
      cases stepped
      have head : rdh = slotOf stored.length := sound.head
      have below := Nat.lt_of_le_of_ne sound.storedGiven fun full =>
        unequal (head.trans ((congrArg slotOf full).trans sound.tail.symm))
      have addr : (ring rdh).pktAddr = buffers.physical rdh := by
        rw [head]
        exact (sound.armed stored.length (Nat.le_refl _) sound.storedGiven).addr
      rw [addr]
      refine { sound with filled := ?_, storing := ?_ }
      · intro position other lower found
        have inside : position < stored.length := (List.getElem?_eq_some_iff.mp found).1
        have apart : slotOf position ≠ rdh := by
          rw [head]
          apply slotOf_ne inside
          dsimp only [Machine.copied, Machine.given] at below lower given_le packets_le
          omega
        exact (sound.filled position other lower found).write_apart apart frame.fits
      · intro other same
        cases same
        exact ⟨below, ByteMemory.read_write⟩

/-- A call keeps what it knows when its frame and the descriptor of that frame are kept. -/
theorem progress_congr {slot : Slot} {desc other : AdvRxDesc} {next later : Option Frame}
    {call : Call} (same : ∀ frame, next = some frame → later = some frame ∧ other = desc)
    (progress : call.progress buffers slot desc next) :
    call.progress buffers slot other later := by
  cases call with
  | returned => trivial
  | checking capacity => trivial
  | measuring capacity =>
      obtain ⟨frame, found⟩ := progress
      exact ⟨frame, (same frame found).1⟩
  | copying capacity pktLen =>
      obtain ⟨frame, found, length⟩ := progress
      exact ⟨frame, (same frame found).1, length⟩
  | settingPktAddr packet =>
      obtain ⟨frame, found, cut⟩ := progress
      exact ⟨frame, (same frame found).1, cut⟩
  | settingHdrAddr packet =>
      obtain ⟨⟨frame, found, cut⟩, addr⟩ := progress
      obtain ⟨kept, unchanged⟩ := same frame found
      rw [unchanged]
      exact ⟨⟨frame, kept, cut⟩, addr⟩
  | writingTail packet =>
      obtain ⟨⟨frame, found, cut⟩, armed⟩ := progress
      obtain ⟨kept, unchanged⟩ := same frame found
      rw [unchanged]
      exact ⟨⟨frame, kept, cut⟩, armed⟩
  | advancing packet =>
      obtain ⟨frame, found, cut⟩ := progress
      exact ⟨frame, (same frame found).1, cut⟩

theorem getElem?_append_some {Element : Type} {list more : List Element} {position : Nat}
    {element : Element} (found : list[position]? = some element) :
    (list ++ more)[position]? = some element := by
  rw [List.getElem?_append_left (List.getElem?_eq_some_iff.mp found).1]
  exact found

theorem completion_length (completion : Completion) (frame : Frame) :
    (completion.desc frame).length.toNat = frame.bytes.length := by
  have fits := frame.fits
  unfold bufSize at fits
  show (UInt16.ofNat frame.bytes.length).toNat = frame.bytes.length
  rw [UInt16.toNat_ofNat']
  omega

theorem sound_complete {completion : Completion} (sound : Sound buffers machine)
    (stepped : machine.complete completion = some after) : Sound buffers after := by
  have given_le := given_le_packets machine
  have packets_le := packets_le_copied machine
  have room := sound.room
  obtain ⟨memory, ring, index, call, rdt, rdh, storing, stored, packets⟩ := machine
  cases storing with
  | none => cases stepped
  | some frame =>
      cases stepped
      obtain ⟨below, bytes⟩ := sound.storing frame rfl
      have head : rdh = slotOf stored.length := sound.head
      have place : index = slotOf packets.length := sound.index
      have longer : (stored ++ [frame]).length = stored.length + 1 := by simp
      have copied := sound.copiedStored
      dsimp only [Machine.copied, Machine.given] at below copied given_le packets_le room
      have kept : ∀ position, position ≠ stored.length →
          stored.length < position + ringSize → position < stored.length + ringSize →
          Function.update ring rdh (completion.desc frame) (slotOf position) =
            ring (slotOf position) := by
        intro position other lower upper
        apply Function.update_of_ne
        rw [head]
        rcases Nat.lt_or_gt_of_ne other with before | behind
        · exact slotOf_ne before lower
        · exact (slotOf_ne behind upper).symm
      refine { sound with
        head := ?_, copiedStored := ?_, storedGiven := ?_, cut := ?_, filled := ?_,
        armed := ?_, storing := ?_, call := ?_ }
      · show rdh + 1 = slotOf (stored ++ [frame]).length
        rw [head, slotOf_add_one, longer]
      · show _ ≤ (stored ++ [frame]).length
        rw [longer]
        exact Nat.le_succ_of_le sound.copiedStored
      · show (stored ++ [frame]).length ≤ _
        rw [longer]
        exact below
      · intro position packet found
        obtain ⟨other, there, cut⟩ := sound.cut position packet found
        exact ⟨other, getElem?_append_some there, cut⟩
      · intro position other lower found
        by_cases last : position = stored.length
        · subst last
          rw [List.getElem?_concat_length] at found
          cases found
          dsimp only
          rw [← head, Function.update_self]
          exact ⟨completion.done, completion_length completion frame, bytes⟩
        · have inside := (List.getElem?_eq_some_iff.mp found).1
          rw [longer] at inside
          have earlier : position < stored.length := by omega
          rw [List.getElem?_append_left earlier] at found
          dsimp only [Machine.copied] at lower ⊢
          rw [kept position last (by omega) (by omega)]
          exact sound.filled position other lower found
      · intro position lower upper
        dsimp only [Machine.given] at lower upper ⊢
        rw [longer] at lower
        rw [kept position (by omega) (by omega) (by omega)]
        exact sound.armed position (Nat.le_of_succ_le lower) upper
      · intro other same
        cases same
      · refine progress_congr ?_ sound.call
        intro other found
        refine ⟨getElem?_append_some found, ?_⟩
        have inside : packets.length < stored.length := (List.getElem?_eq_some_iff.mp found).1
        dsimp only
        rw [place]
        exact kept packets.length (Nat.ne_of_lt inside) (by omega) (by omega)

/-- The next frame, if one is stored, waits in the descriptor of the read index. -/
theorem Sound.next_filled (sound : Sound buffers machine) {frame : Frame}
    (uncopied : machine.copied = machine.packets.length)
    (found : machine.stored[machine.packets.length]? = some frame) :
    Filled buffers machine.memory machine.receiveIndex (machine.ring machine.receiveIndex)
      frame := by
  rw [sound.index]
  exact sound.filled _ frame (Nat.le_of_eq uncopied) found

/-- With no frame stored, that descriptor is ready for one. -/
theorem Sound.next_armed (sound : Sound buffers machine)
    (none_left : machine.stored[machine.packets.length]? = none) :
    Armed buffers machine.receiveIndex (machine.ring machine.receiveIndex) := by
  have packets_le := packets_le_copied machine
  have copied := sound.copiedStored
  have given := sound.storedGiven
  have behind := List.getElem?_eq_none_iff.mp none_left
  rw [sound.index]
  exact sound.armed _ behind (by omega)

theorem sound_check {capacity : Nat} (sound : Sound buffers machine)
    (call : machine.call = .checking capacity) (stepped : machine.drive buffers = some after) :
    Sound buffers after := by
  have armed := sound.next_armed
  obtain ⟨memory, ring, index, _, rdt, rdh, storing, stored, packets⟩ := machine
  cases call
  unfold Machine.drive at stepped
  dsimp only at stepped
  split at stepped
  · rename_i done
    cases stepped
    refine { sound with call := ?_ }
    show ∃ frame, stored[packets.length]? = some frame
    cases found : stored[packets.length]? with
    | none => exact absurd (armed found).undone done
    | some frame => exact ⟨frame, rfl⟩
  · cases stepped
    exact { sound with call := trivial }

theorem sound_measure {capacity : Nat} (sound : Sound buffers machine)
    (call : machine.call = .measuring capacity) (stepped : machine.drive buffers = some after) :
    Sound buffers after := by
  have filled := @Sound.next_filled _ _ sound
  obtain ⟨memory, ring, index, _, rdt, rdh, storing, stored, packets⟩ := machine
  cases call
  obtain ⟨frame, found⟩ := sound.call
  have length : (ring index).length.toNat = frame.bytes.length := (filled rfl found).length
  unfold Machine.drive at stepped
  dsimp only at stepped
  split at stepped
  · cases stepped
    exact { sound with call := ⟨frame, found, length⟩ }
  · cases stepped

theorem sound_copy {capacity pktLen : Nat} (sound : Sound buffers machine)
    (call : machine.call = .copying capacity pktLen)
    (stepped : machine.drive buffers = some after) : Sound buffers after := by
  have filled := @Sound.next_filled _ _ sound
  obtain ⟨memory, ring, index, _, rdt, rdh, storing, stored, packets⟩ := machine
  cases call
  cases stepped
  obtain ⟨frame, found, rfl⟩ := sound.call
  have bytes := (filled rfl found).bytes
  have inside : packets.length < stored.length := (List.getElem?_eq_some_iff.mp found).1
  refine { sound with copiedStored := inside, filled := ?_, call := ⟨frame, found, ?_⟩ }
  · intro position other lower
    exact sound.filled position other (Nat.le_of_succ_le lower)
  · unfold Cut
    dsimp only at bytes ⊢
    rw [bytes, List.take_eq_take_iff]
    omega

/-- Rewriting the descriptor of a frame that is copied leaves the other ones alone. -/
theorem Sound.update (sound : Sound buffers machine)
    (copied : machine.copied = machine.packets.length + 1)
    (given : machine.given = machine.packets.length + (ringSize - 1)) (desc : AdvRxDesc)
    {position : Nat} (lower : machine.copied ≤ position) (upper : position ≤ machine.given) :
    Function.update machine.ring machine.receiveIndex desc (slotOf position) =
      machine.ring (slotOf position) := by
  apply Function.update_of_ne
  rw [sound.index]
  unfold ringSize at given
  have behind : machine.packets.length < position := by omega
  have near : position < machine.packets.length + ringSize := by
    unfold ringSize
    omega
  exact (slotOf_ne behind near).symm

theorem Sound.filled_update (sound : Sound buffers machine)
    (copied : machine.copied = machine.packets.length + 1)
    (given : machine.given = machine.packets.length + (ringSize - 1)) (desc : AdvRxDesc)
    {position : Nat} {frame : Frame} (lower : machine.copied ≤ position)
    (found : machine.stored[position]? = some frame) :
    Filled buffers machine.memory (slotOf position)
      (Function.update machine.ring machine.receiveIndex desc (slotOf position)) frame := by
  have inside : position < machine.stored.length := (List.getElem?_eq_some_iff.mp found).1
  have stored := sound.storedGiven
  rw [sound.update copied given desc lower (by omega)]
  exact sound.filled position frame lower found

theorem Sound.armed_update (sound : Sound buffers machine)
    (copied : machine.copied = machine.packets.length + 1)
    (given : machine.given = machine.packets.length + (ringSize - 1)) (desc : AdvRxDesc)
    {position : Nat} (lower : machine.stored.length ≤ position)
    (upper : position ≤ machine.given) :
    Armed buffers (slotOf position)
      (Function.update machine.ring machine.receiveIndex desc (slotOf position)) := by
  have stored := sound.copiedStored
  rw [sound.update copied given desc (by omega) upper]
  exact sound.armed position lower upper

theorem sound_setPktAddr {packet : Packet} (sound : Sound buffers machine)
    (call : machine.call = .settingPktAddr packet)
    (stepped : machine.drive buffers = some after) : Sound buffers after := by
  have filled := @Sound.filled_update _ _ sound
  have armed := @Sound.armed_update _ _ sound
  obtain ⟨memory, ring, index, _, rdt, rdh, storing, stored, packets⟩ := machine
  cases call
  cases stepped
  refine { sound with filled := ?_, armed := ?_, call := ⟨sound.call, ?_⟩ }
  · intro position frame lower found
    exact filled rfl rfl _ lower found
  · intro position lower upper
    exact armed rfl rfl _ lower upper
  · dsimp only
    rw [Function.update_self]
    rfl

theorem sound_setHdrAddr {packet : Packet} (sound : Sound buffers machine)
    (call : machine.call = .settingHdrAddr packet)
    (stepped : machine.drive buffers = some after) : Sound buffers after := by
  have filled := @Sound.filled_update _ _ sound
  have armed := @Sound.armed_update _ _ sound
  obtain ⟨memory, ring, index, _, rdt, rdh, storing, stored, packets⟩ := machine
  cases call
  cases stepped
  obtain ⟨next, addr⟩ := sound.call
  refine { sound with filled := ?_, armed := ?_, call := ⟨next, ?_⟩ }
  · intro position frame lower found
    exact filled rfl rfl _ lower found
  · intro position lower upper
    exact armed rfl rfl _ lower upper
  · dsimp only
    rw [Function.update_self]
    exact armed_setHdrAddr addr

theorem sound_tail {packet : Packet} (sound : Sound buffers machine)
    (call : machine.call = .writingTail packet)
    (stepped : machine.drive buffers = some after) : Sound buffers after := by
  obtain ⟨memory, ring, index, _, rdt, rdh, storing, stored, packets⟩ := machine
  cases call
  cases stepped
  obtain ⟨next, rearmed⟩ := sound.call
  have place : index = slotOf packets.length := sound.index
  have last : index = slotOf (packets.length + ringSize) := by
    rw [place, Igcd.slotOf_full]
  refine { sound with
    tail := last, storedGiven := ?_, armed := ?_, storing := ?_, call := next }
  · exact Nat.le_succ_of_le sound.storedGiven
  · intro position lower upper
    by_cases same : position = packets.length + ringSize
    · rw [same]
      dsimp only
      rw [← last]
      exact rearmed
    · have earlier : position ≤ packets.length + (ringSize - 1) := by
        have most : position ≤ packets.length + ringSize := upper
        unfold ringSize at same most ⊢
        omega
      exact sound.armed position lower earlier
  · intro frame same
    obtain ⟨below, bytes⟩ := sound.storing frame same
    exact ⟨Nat.lt_succ_of_lt below, bytes⟩

theorem sound_advance {packet : Packet} (sound : Sound buffers machine)
    (call : machine.call = .advancing packet)
    (stepped : machine.drive buffers = some after) : Sound buffers after := by
  obtain ⟨memory, ring, index, _, rdt, rdh, storing, stored, packets⟩ := machine
  cases call
  cases stepped
  have place : index = slotOf packets.length := sound.index
  have longer : (packets ++ [packet]).length = packets.length + 1 := by simp
  have copied : Machine.copied ⟨memory, ring, wrapRing index, .returned, rdt, rdh, storing, stored,
      packets ++ [packet]⟩ = packets.length + 1 := longer
  have given : Machine.given ⟨memory, ring, wrapRing index, .returned, rdt, rdh, storing, stored,
      packets ++ [packet]⟩ = packets.length + ringSize := by
    show (packets ++ [packet]).length + (ringSize - 1) = packets.length + ringSize
    rw [longer]
    unfold ringSize
    omega
  refine { sound with
    index := ?_, tail := ?_, copiedStored := ?_, storedGiven := ?_, cut := ?_, filled := ?_,
    armed := ?_, storing := ?_, call := trivial }
  · show wrapRing index = slotOf (packets ++ [packet]).length
    rw [place, wrapRing_slotOf, longer]
  · rw [given]
    exact sound.tail
  · rw [copied]
    exact sound.copiedStored
  · rw [given]
    exact sound.storedGiven
  · intro position other found
    by_cases last : position = packets.length
    · subst last
      rw [List.getElem?_concat_length] at found
      cases found
      exact sound.call
    · have inside : position < (packets ++ [packet]).length :=
        (List.getElem?_eq_some_iff.mp found).1
      rw [longer] at inside
      have earlier : position < packets.length := by omega
      rw [List.getElem?_append_left earlier] at found
      exact sound.cut position other found
  · rw [copied]
    exact sound.filled
  · rw [given]
    exact sound.armed
  · rw [given]
    exact sound.storing

theorem sound_drive (sound : Sound buffers machine) (stepped : machine.drive buffers = some after) :
    Sound buffers after := by
  cases call : machine.call with
  | returned =>
      unfold Machine.drive at stepped
      rw [call] at stepped
      cases stepped
  | checking capacity => exact sound_check sound call stepped
  | measuring capacity => exact sound_measure sound call stepped
  | copying capacity pktLen => exact sound_copy sound call stepped
  | settingPktAddr packet => exact sound_setPktAddr sound call stepped
  | settingHdrAddr packet => exact sound_setHdrAddr sound call stepped
  | writingTail packet => exact sound_tail sound call stepped
  | advancing packet => exact sound_advance sound call stepped

/-- A descriptor that holds a frame being read is not among those of the card. -/
theorem Sound.not_owned (sound : Sound buffers machine)
    (stored : machine.packets.length < machine.stored.length) :
    ¬ machine.owned machine.receiveIndex := by
  have given_le := given_le_packets machine
  rw [sound.owned_iff]
  rintro ⟨position, lower, upper, same⟩
  rw [sound.index] at same
  exact slotOf_ne (show machine.packets.length < position by omega) (by omega) same.symm

/-- What a call that has found a frame knows. -/
theorem Sound.next_stored (sound : Sound buffers machine) (holds : machine.call.holds) :
    machine.packets.length < machine.stored.length := by
  have progress := sound.call
  have next : ∃ frame, machine.stored[machine.packets.length]? = some frame := by
    cases call : machine.call <;> rw [call] at holds progress
    case returned => exact holds.elim
    case checking capacity => exact holds.elim
    case measuring capacity => exact progress
    case copying capacity pktLen =>
      obtain ⟨frame, found, _⟩ := progress
      exact ⟨frame, found⟩
    case settingPktAddr packet =>
      obtain ⟨frame, found, _⟩ := progress
      exact ⟨frame, found⟩
    case settingHdrAddr packet =>
      obtain ⟨⟨frame, found, _⟩, _⟩ := progress
      exact ⟨frame, found⟩
    case writingTail packet =>
      obtain ⟨⟨frame, found, _⟩, _⟩ := progress
      exact ⟨frame, found⟩
    case advancing packet =>
      obtain ⟨frame, found, _⟩ := progress
      exact ⟨frame, found⟩
  obtain ⟨frame, found⟩ := next
  exact (List.getElem?_eq_some_iff.mp found).1

/-- The status of the next descriptor says whether a frame is stored. -/
theorem Sound.available (sound : Sound buffers machine)
    (uncopied : machine.copied = machine.packets.length) :
    machine.availableForRead =
      (machine.stored[machine.packets.length]?.map fun frame => frame.bytes.length).getD 0 := by
  unfold Machine.availableForRead
  dsimp only
  cases found : machine.stored[machine.packets.length]? with
  | none =>
      rw [if_neg (not_not_intro (sound.next_armed found).undone)]
      rfl
  | some frame =>
      have filled := sound.next_filled uncopied found
      rw [if_pos filled.done]
      exact filled.length

/-- The call that has found a frame does not find it longer than the buffer. -/
theorem Sound.proceeds (sound : Sound buffers machine) (running : machine.call ≠ .returned) :
    (machine.drive buffers).isSome = true := by
  unfold Machine.drive
  dsimp only
  cases call : machine.call with
  | returned => exact absurd call running
  | checking capacity =>
      dsimp only
      split <;> rfl
  | measuring capacity =>
      have progress := sound.call
      rw [call] at progress
      obtain ⟨frame, found⟩ := progress
      have uncopied : machine.copied = machine.packets.length := by
        unfold Machine.copied
        rw [call]
      have short : (machine.ring machine.receiveIndex).length.toNat ≤ bufSize := by
        rw [(sound.next_filled uncopied found).length]
        exact frame.fits
      dsimp only
      rw [if_pos short]
      rfl
  | copying capacity pktLen => rfl
  | settingPktAddr packet => rfl
  | settingHdrAddr packet => rfl
  | writingTail packet => rfl
  | advancing packet => rfl

/-- Whole packets are the first frames. -/
theorem Sound.whole (sound : Sound buffers machine)
    (large : ∀ packet ∈ machine.packets, bufSize ≤ packet.capacity) :
    machine.packets.map Packet.bytes <+: machine.stored.map Frame.bytes := by
  apply List.prefix_iff_getElem?.mpr
  intro position inside
  rw [List.length_map] at inside
  obtain ⟨frame, found, cut⟩ := sound.cut position _ (List.getElem?_eq_getElem inside)
  have enough := large _ (List.getElem_mem inside)
  have fits := frame.fits
  rw [List.getElem?_map, found, List.getElem_map, cut, List.take_of_length_le (by omega)]
  rfl

theorem delivers_of_sound (sound : Sound buffers machine) : Delivers buffers machine where
  inOrder := sound.cut
  whole := sound.whole
  available := by
    intro idle
    apply sound.available
    unfold Machine.copied
    rw [idle]
  untouched := by
    intro holds
    exact sound.not_owned (sound.next_stored holds)
  polls := by
    intro capacity call owned
    have none_left : machine.stored[machine.packets.length]? = none := by
      rw [List.getElem?_eq_none_iff]
      apply Nat.le_of_not_lt
      intro stored
      exact sound.not_owned stored owned
    unfold Machine.drive
    rw [call]
    exact if_neg (not_not_intro (sound.next_armed none_left).undone)
  addressed := by
    intro slot owned
    obtain ⟨position, lower, upper, rfl⟩ := (sound.owned_iff slot).mp owned
    exact (sound.armed position lower (Nat.le_of_lt upper)).addr
  proceeds := sound.proceeds

end Steps

section Runs

theorem sound_step {buffers : RxBuffers} {machine after : Machine} {event : Event}
    (sound : Sound buffers machine) (stepped : machine.step buffers event = some after) :
    Sound buffers after := by
  cases event with
  | readPacket capacity => exact sound_begin sound stepped
  | driver => exact sound_drive sound stepped
  | frame frame => exact sound_receive sound stepped
  | writeBack completion => exact sound_complete sound stepped

/-- Whatever the order of the frames, of their write-backs and of the steps of the calls. -/
theorem receive_delivers (buffers : RxBuffers) (memory : Memory) (events : List Event) :
    StepRuns.Throughout (Machine.step buffers) (Delivers buffers) (Machine.new buffers memory)
      events := by
  have keeps : ∀ machine event after, Sound buffers machine → True →
      machine.step buffers event = some after → Sound buffers after := by
    intro machine event after sound _ stepped
    exact sound_step sound stepped
  have always : StepRuns.Throughout (Machine.step buffers) (Sound buffers)
      (Machine.new buffers memory) events :=
    StepRuns.throughout_of_eachMeets keeps (sound_new memory)
      (StepRuns.eachMeets_of_forall fun _ _ _ => trivial)
  intro done rest reached split run
  exact delivers_of_sound (always done rest reached split run)

def twoByteFrame : Frame := ⟨[7, 8], by decide, by decide⟩

example : (StepRuns.runAll (Machine.step Igcd.rowOfBuffers)
    (Machine.new Igcd.rowOfBuffers fun _ => 0)
    (.frame twoByteFrame :: .writeBack ⟨0, 0, 1, 0, by decide⟩ :: .readPacket 2048 ::
      List.replicate 7 .driver)).map (fun machine => machine.packets.map Packet.bytes) =
    some [[7, 8]] := by decide

end Runs

end NixRedox.IgcdReceive
