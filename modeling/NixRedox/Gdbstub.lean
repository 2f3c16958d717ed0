import NixRedox.ByteMemory
import NixRedox.Bytes
import NixRedox.Hex

set_option autoImplicit false

/- The remote debugging stub (`gdbstub`): packets, software breakpoints and the loop of
`run_stub`. -/
namespace NixRedox.Gdbstub

open ByteMemory (Memory)
open Hex (hexPair)

def ascii (letter : Char) : UInt8 := UInt8.ofNat letter.toNat

def hexEncode (data : List UInt8) : String := String.ofList (data.flatMap hexPair)

def hexDigit (byte : UInt8) : Option Nat :=
  if ascii '0' ≤ byte ∧ byte ≤ ascii '9' then some (byte.toNat - 48)
  else if ascii 'a' ≤ byte ∧ byte ≤ ascii 'f' then some (byte.toNat - 87)
  else if ascii 'A' ≤ byte ∧ byte ≤ ascii 'F' then some (byte.toNat - 55)
  else none

/-- `from_str_radix(16)` for numbers below a bound; a plus sign may come first. -/
def fromRadix16 (bound : Nat) (text : List UInt8) : Option Nat :=
  let digits := if text.head? = some (ascii '+') then text.tail else text
  if digits = [] then
    none
  else
    match digits.mapM hexDigit with
    | none => none
    | some values =>
        let value := values.foldl (fun value digit => 16 * value + digit) 0
        if value < bound then some value else none

def parseHexU64 (hex : List UInt8) : Option Nat := fromRadix16 (2 ^ 64) hex

def hexDecode : List UInt8 → Option (List UInt8)
  | [] => some []
  | [_] => none
  | high :: low :: rest =>
      match fromRadix16 256 [high, low], hexDecode rest with
      | some byte, some bytes => some (UInt8.ofNat byte :: bytes)
      | _, _ => none

structure IntRegisters where
  r15 : UInt64
  r14 : UInt64
  r13 : UInt64
  r12 : UInt64
  rbp : UInt64
  rbx : UInt64
  r11 : UInt64
  r10 : UInt64
  r9 : UInt64
  r8 : UInt64
  rax : UInt64
  rcx : UInt64
  rdx : UInt64
  rsi : UInt64
  rdi : UInt64
  rip : UInt64
  cs : UInt64
  rflags : UInt64
  rsp : UInt64
  ss : UInt64
  deriving DecidableEq, Inhabited, Repr

def reg64Hex (value : UInt64) : String := hexEncode (Bytes.toLittleEndian 8 value.toNat)

def reg32Hex (value : UInt64) : String := hexEncode (Bytes.toLittleEndian 4 value.toNat)

/-- In the order of the debugger's register file; `ds`, `es`, `fs` and `gs` are zero. -/
def intRegsToGdbHex (regs : IntRegisters) : String :=
  String.join
    ([regs.rax, regs.rbx, regs.rcx, regs.rdx, regs.rsi, regs.rdi, regs.rbp, regs.rsp, regs.r8,
        regs.r9, regs.r10, regs.r11, regs.r12, regs.r13, regs.r14, regs.r15, regs.rip].map reg64Hex ++
      [regs.rflags, regs.cs, regs.ss, 0, 0, 0, 0].map reg32Hex)

/-- A little-endian register of so many bytes at the front of the text. -/
def readLe (width : Nat) (hex : List UInt8) : Option (UInt64 × List UInt8) :=
  if 2 * width ≤ hex.length then
    (hexDecode (hex.take (2 * width))).map fun bytes =>
      (UInt64.ofNat (Bytes.littleEndian bytes), hex.drop (2 * width))
  else
    none

def gdbHexToIntRegs (hex : List UInt8) : Option IntRegisters := do
  let (rax, hex) ← readLe 8 hex
  let (rbx, hex) ← readLe 8 hex
  let (rcx, hex) ← readLe 8 hex
  let (rdx, hex) ← readLe 8 hex
  let (rsi, hex) ← readLe 8 hex
  let (rdi, hex) ← readLe 8 hex
  let (rbp, hex) ← readLe 8 hex
  let (rsp, hex) ← readLe 8 hex
  let (r8, hex) ← readLe 8 hex
  let (r9, hex) ← readLe 8 hex
  let (r10, hex) ← readLe 8 hex
  let (r11, hex) ← readLe 8 hex
  let (r12, hex) ← readLe 8 hex
  let (r13, hex) ← readLe 8 hex
  let (r14, hex) ← readLe 8 hex
  let (r15, hex) ← readLe 8 hex
  let (rip, hex) ← readLe 8 hex
  let (rflags, hex) ← readLe 4 hex
  let (cs, hex) ← readLe 4 hex
  let (ss, hex) ← readLe 4 hex
  let (_, hex) ← readLe 4 hex
  let (_, hex) ← readLe 4 hex
  let (_, hex) ← readLe 4 hex
  let (_, _) ← readLe 4 hex
  return ⟨r15, r14, r13, r12, rbp, rbx, r11, r10, r9, r8, rax, rcx, rdx, rsi, rdi, rip, cs, rflags,
    rsp, ss⟩

structure Target where
  pid : Nat
  regsInt : IntRegisters
  mem : Memory
  /-- Software breakpoints: the original byte at each address. -/
  breakpoints : AList fun _ : Nat => UInt8
  exited : Bool

/-- Which of the file operations made for one packet fail, in order; those that fail
change nothing. -/
abbrev Faults := Nat → Bool

section Operations

variable (fails : Faults)

def readIntRegs (target : Target) : Option IntRegisters :=
  if fails 0 || fails 1 then none else some target.regsInt

/-- The second file access of a packet. -/
def writeIntRegs (target : Target) (regs : IntRegisters) : Option Target :=
  if fails 2 || fails 3 then none else some { target with regsInt := regs }

/-- An empty read does not access the memory. -/
def readMemory (target : Target) (addr len : Nat) : Option (List UInt8) :=
  if fails 0 || (fails 1 && len ≠ 0) then
    none
  else
    some (ByteMemory.read target.mem addr len)

def writeMemory (target : Target) (addr : Nat) (data : List UInt8) : Option Target :=
  if fails 0 || (fails 1 && data ≠ []) then
    none
  else
    some { target with mem := ByteMemory.write target.mem addr data }

def insertBreakpoint (target : Target) (addr : Nat) : Option Target :=
  if addr ∈ target.breakpoints then
    some target
  else if fails 0 || fails 1 || fails 2 || fails 3 then
    none
  else
    some { target with
      mem := ByteMemory.write target.mem addr [0xCC]
      breakpoints := target.breakpoints.insert addr (target.mem addr) }

/-- The breakpoint is taken out of the table first; the flag is whether that was all. -/
def removeBreakpoint (target : Target) (addr : Nat) : Target × Bool :=
  match target.breakpoints.lookup addr with
  | none => (target, true)
  | some orig =>
      let removed := { target with breakpoints := target.breakpoints.erase addr }
      if fails 0 || fails 1 then
        (removed, false)
      else
        ({ removed with mem := ByteMemory.write target.mem addr [orig] }, true)

end Operations

section Packets

/-- What stands before and after the first such letter. -/
def splitAtFirst (letter : Char) (data : List UInt8) : Option (List UInt8 × List UInt8) :=
  if ascii letter ∈ data then
    some (data.takeWhile (· ≠ ascii letter), (data.dropWhile (· ≠ ascii letter)).tail)
  else
    none

/-- `addr,length` of a packet to read memory. -/
def parseRead (params : List UInt8) : Option (Nat × Nat) := do
  let (addr, len) ← splitAtFirst ',' params
  return (← parseHexU64 addr, ← parseHexU64 len)

/-- `addr,length:XX…` of a packet to write memory; the length is not looked at. -/
def parseWrite (params : List UInt8) : Option (Nat × List UInt8) := do
  let (header, hexData) ← splitAtFirst ':' params
  let (addr, _) ← splitAtFirst ',' header
  return (← parseHexU64 addr, ← hexDecode hexData)

/-- `addr,kind` of a breakpoint packet. -/
def parseBreakpoint (params : List UInt8) : Option Nat := do
  let (addr, _) ← splitAtFirst ',' params
  parseHexU64 addr

def startsWith (text : String) (data : List UInt8) : Bool :=
  (text.toList.map ascii).isPrefixOf data

/-- The response and the target after it; `none` when the stub panics. Letting the
debuggee run (`c`, `s`) is the given function. -/
def handlePacket (resume : Bool → Target → String × Target) (fails : Faults) (target : Target)
    (data : List UInt8) : Option (String × Target) :=
  match data with
  | [] => some ("", target)
  | first :: params =>
      if first = ascii '?' then
        some ("S05", target)
      else if first = ascii 'g' then
        match readIntRegs fails target with
        | some regs => some (intRegsToGdbHex regs, target)
        | none => some ("E01", target)
      else if first = ascii 'G' then
        match readIntRegs fails target, gdbHexToIntRegs params with
        | some _, some regs =>
            match writeIntRegs fails target regs with
            | some written => some ("OK", written)
            | none => some ("E01", target)
        | _, _ => some ("E01", target)
      else if first = ascii 'm' then
        match parseRead params with
        | some (addr, len) =>
            -- the buffer is allocated after the seek, the response after the read
            if fails 0 = false ∧ len ≥ 2 ^ 63 then
              none
            else
              match readMemory fails target addr len with
              | some bytes =>
                  if len ≥ 2 ^ 62 then none else some (hexEncode bytes, target)
              | none => some ("E14", target)
        | none => some ("E01", target)
      else if first = ascii 'M' then
        match parseWrite params with
        | some (addr, bytes) =>
            match writeMemory fails target addr bytes with
            | some written => some ("OK", written)
            | none => some ("E14", target)
        | none => some ("E01", target)
      else if first = ascii 'c' then
        some (resume false target)
      else if first = ascii 's' then
        some (resume true target)
      else if first = ascii 'Z' ∧ params.head? = some (ascii '0') then
        if params.length < 2 then
          none
        else
          match parseBreakpoint (params.drop 2) with
          | some addr =>
              match insertBreakpoint fails target addr with
              | some inserted => some ("OK", inserted)
              | none => some ("E01", target)
          | none => some ("E01", target)
      else if first = ascii 'z' ∧ params.head? = some (ascii '0') then
        if params.length < 2 then
          none
        else
          match parseBreakpoint (params.drop 2) with
          | some addr =>
              match removeBreakpoint fails target addr with
              | (removed, true) => some ("OK", removed)
              | (removed, false) => some ("E01", removed)
          | none => some ("E01", target)
      else if first = ascii 'H' then
        some ("OK", target)
      else if first = ascii 'q' then
        if startsWith "qSupported" data then
          some ("PacketSize=4096", target)
        else if startsWith "qAttached" data then
          some ("1", target)
        else if startsWith "qC" data then
          some ("QC" ++ String.ofList (Nat.toDigits 16 target.pid), target)
        else
          some ("", target)
      else if first = ascii 'k' then
        some ("", { target with exited := true })
      else if first = ascii 'D' then
        some ("OK", target)
      else
        some ("", target)

end Packets

section Loop

/-- What the loop gets: a packet, with the file operations that fail and whether the
response can be sent; or the end of the connection. -/
inductive Event where
  | packet (data : List UInt8) (fails : Faults) (sent : Bool)
  | disconnected

structure Stub where
  target : Target
  ended : Bool

/-- One turn of the loop of `run_stub`. -/
def Stub.turn (resume : Bool → Target → String × Target) (stub : Stub) :
    Event → Option (String × Stub)
  | .disconnected => some ("", { stub with ended := true })
  | .packet data fails sent =>
      (handlePacket resume fails stub.target data).map fun (response, target) =>
        let leaves := data.head? = some (ascii 'D') ∨ data.head? = some (ascii 'k')
        (response, ⟨target, leaves ∨ sent = false ∨ target.exited = true⟩)

end Loop

end NixRedox.Gdbstub
