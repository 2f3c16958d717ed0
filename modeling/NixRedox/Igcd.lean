import NixRedox.ByteMemory

set_option autoImplicit false

/- The transmit side of the I225 network driver (`igcd`) and the card at the other end of
the descriptor ring. -/
namespace NixRedox.Igcd

open ByteMemory (Memory)

def ringSize : Nat := 256

def bufSize : Nat := 2048

instance : NeZero ringSize := ⟨by decide⟩

section Descriptors

def advtxdDtypData : UInt32 := 0x00300000

def advtxdDcmdDext : UInt32 := 0x20000000

def advtxdDcmdRs : UInt32 := 0x08000000

def advtxdDcmdIfcs : UInt32 := 0x02000000

def advtxdDcmdEop : UInt32 := 0x01000000

def advtxdPaylenShift : UInt32 := 14

def advtxdStatDd : UInt32 := 1

/-- The 16 bytes of a transmit descriptor. The two layouts of the union have their fields
in the same places: `buffer_addr` and `rsvd`, `cmd_type_len` and `nxtseq_seed`,
`olinfo_status` and `status`. -/
structure AdvTxDesc where
  word0 : UInt64
  word1 : UInt32
  word2 : UInt32
  deriving DecidableEq, Inhabited, Repr

def AdvTxDesc.bufferAddr (desc : AdvTxDesc) : UInt64 := desc.word0

def AdvTxDesc.cmdTypeLen (desc : AdvTxDesc) : UInt32 := desc.word1

def AdvTxDesc.status (desc : AdvTxDesc) : UInt32 := desc.word2

/-- The write-back layout. -/
structure AdvTxDescWb where
  rsvd : UInt64
  nxtseqSeed : UInt32
  status : UInt32
  deriving DecidableEq, Repr

def AdvTxDescWb.desc (wb : AdvTxDescWb) : AdvTxDesc := ⟨wb.rsvd, wb.nxtseqSeed, wb.status⟩

/-- The length field of `cmd_type_len`; the other bits are flags. -/
def AdvTxDesc.dataLength (desc : AdvTxDesc) : Nat := (desc.cmdTypeLen &&& 0xFFFF).toNat

abbrev Slot := Fin ringSize

theorem wrap_lt (index : Nat) : (index + 1) &&& (ringSize - 1) < ringSize :=
  Nat.lt_of_le_of_lt Nat.and_le_right (by decide)

def wrapRing (index : Slot) : Slot := ⟨(index.val + 1) &&& (ringSize - 1), wrap_lt index⟩

/-- The physical addresses of the transmit buffers, each an allocation of its own. -/
structure TxBuffers where
  physical : Slot → UInt64
  apart : ∀ first second, first ≠ second →
    (physical first).toNat + bufSize ≤ (physical second).toNat ∨
      (physical second).toNat + bufSize ≤ (physical first).toNat

end Descriptors

section Machine

structure Igc where
  transmitRingFree : Nat
  transmitIndex : Slot
  transmitCleanIndex : Slot

/-- How far a call of `write_packet` is: what it does next. -/
inductive Call where
  | returned
  | reclaiming (buf : List UInt8)
  | copying (buf : List UInt8)
  | settingCommand (buf : List UInt8)
  | settingStatus (buf : List UInt8)
  | advancing (buf : List UInt8)
  | writingTail (buf : List UInt8)

/-- What the card does next with the descriptor at its head. -/
inductive Card where
  | fetching
  | writingBack
  | advancing

structure Machine where
  /-- The memory the card reads packets from; the ring is not part of it. -/
  memory : Memory
  ring : Slot → AdvTxDesc
  driver : Igc
  call : Call
  tdt : Slot
  tdh : Slot
  card : Card
  /-- The packets of the calls that have written the tail register. -/
  written : List (List UInt8)
  /-- The packets on the wire. -/
  wire : List (List UInt8)
  /-- How many descriptors the card has written back. -/
  completed : Nat

/-- After `Igc::new`: the descriptors are zero but for the addresses set by `init_tx`. -/
def Machine.new (buffers : TxBuffers) (memory : Memory) : Machine where
  memory := memory
  ring := fun slot => ⟨buffers.physical slot, 0, 0⟩
  driver := ⟨ringSize, 0, 0⟩
  call := .returned
  tdt := 0
  tdh := 0
  card := .fetching
  written := []
  wire := []
  completed := 0

inductive Event where
  | writePacket (buf : List UInt8)
  | driver
  | card (writeBack : AdvTxDescWb)

variable (buffers : TxBuffers)

/-- One less, as a `usize` that wraps. -/
def usizePred (value : Nat) : Nat := if value = 0 then 2 ^ 64 - 1 else value - 1

/-- What a call copies and announces of its buffer. -/
def sentLength (buf : List UInt8) : Nat := min buf.length bufSize

def Machine.begin (machine : Machine) (buf : List UInt8) : Option Machine :=
  match machine.call with
  | .returned =>
      if machine.driver.transmitRingFree = 0 then
        some { machine with call := .reclaiming buf }
      else
        some { machine with call := .copying buf }
  | _ => none

/-- One turn of the loop that reclaims completed descriptors. -/
def Machine.reclaim (machine : Machine) (buf : List UInt8) : Machine :=
  let driver := machine.driver
  let desc := machine.ring driver.transmitCleanIndex
  if desc.status &&& advtxdStatDd ≠ 0 then
    let reclaimed : Igc := { driver with
      transmitCleanIndex := wrapRing driver.transmitCleanIndex
      transmitRingFree := driver.transmitRingFree + 1 }
    { machine with
      driver := reclaimed
      call := if reclaimed.transmitRingFree ≥ ringSize then .copying buf else .reclaiming buf }
  else if driver.transmitRingFree > 0 then
    { machine with call := .copying buf }
  else if driver.transmitRingFree ≥ ringSize then
    { machine with call := .copying buf }
  else
    machine

/-- The next step of the call that is going on. -/
def Machine.drive (machine : Machine) : Option Machine :=
  let driver := machine.driver
  let desc := machine.ring driver.transmitIndex
  match machine.call with
  | .returned => none
  | .reclaiming buf => some (machine.reclaim buf)
  | .copying buf =>
      some { machine with
        memory := ByteMemory.write machine.memory (buffers.physical driver.transmitIndex).toNat
          (buf.take (sentLength buf))
        call := .settingCommand buf }
  | .settingCommand buf =>
      let command := advtxdDcmdEop ||| advtxdDcmdRs ||| advtxdDcmdIfcs ||| advtxdDcmdDext |||
        advtxdDtypData ||| UInt32.ofNat (sentLength buf)
      some { machine with
        ring := Function.update machine.ring driver.transmitIndex { desc with word1 := command }
        call := .settingStatus buf }
  | .settingStatus buf =>
      let status := UInt32.ofNat (sentLength buf) <<< advtxdPaylenShift
      some { machine with
        ring := Function.update machine.ring driver.transmitIndex { desc with word2 := status }
        call := .advancing buf }
  | .advancing buf =>
      some { machine with
        driver := { driver with
          transmitIndex := wrapRing driver.transmitIndex
          transmitRingFree := usizePred driver.transmitRingFree }
        call := .writingTail buf }
  | .writingTail buf =>
      some { machine with
        tdt := driver.transmitIndex
        written := machine.written ++ [buf]
        call := .returned }

/-- The next step of the card; none when the ring looks empty to it. -/
def Machine.serve (machine : Machine) (writeBack : AdvTxDescWb) : Option Machine :=
  let desc := machine.ring machine.tdh
  match machine.card with
  | .fetching =>
      if machine.tdh = machine.tdt then
        none
      else
        some { machine with
          wire := machine.wire ++
            [ByteMemory.read machine.memory desc.bufferAddr.toNat desc.dataLength]
          card := .writingBack }
  | .writingBack =>
      some { machine with
        ring := Function.update machine.ring machine.tdh writeBack.desc
        completed := machine.completed + 1
        card := .advancing }
  | .advancing => some { machine with tdh := machine.tdh + 1, card := .fetching }

def Machine.step (machine : Machine) : Event → Option Machine
  | .writePacket buf => machine.begin buf
  | .driver => machine.drive buffers
  | .card writeBack => machine.serve writeBack

end Machine

end NixRedox.Igcd
