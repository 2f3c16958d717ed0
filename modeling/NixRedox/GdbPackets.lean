import NixRedox.GdbBreakpoints

set_option autoImplicit false

/- Packets under faults that leave a write half done, and the debuggee running between two
stops. -/
namespace NixRedox.Gdbstub

open ByteMemory (Memory)
open Hex (hexPair)

section Registers

/-- The registers as they lie in memory. -/
def IntRegisters.values (regs : IntRegisters) : List UInt64 :=
  [regs.r15, regs.r14, regs.r13, regs.r12, regs.rbp, regs.rbx, regs.r11, regs.r10, regs.r9, regs.r8,
    regs.rax, regs.rcx, regs.rdx, regs.rsi, regs.rdi, regs.rip, regs.cs, regs.rflags, regs.rsp,
    regs.ss]

def IntRegisters.bytes (regs : IntRegisters) : List UInt8 :=
  regs.values.flatMap fun value => Bytes.toLittleEndian 8 value.toNat

def wordAt (bytes : List UInt8) (index : Nat) : UInt64 :=
  UInt64.ofNat (Bytes.littleEndian ((bytes.drop (8 * index)).take 8))

def IntRegisters.ofBytes (bytes : List UInt8) : IntRegisters :=
  let word := wordAt bytes
  ⟨word 0, word 1, word 2, word 3, word 4, word 5, word 6, word 7, word 8, word 9, word 10, word 11,
    word 12, word 13, word 14, word 15, word 16, word 17, word 18, word 19⟩

/-- The registers after so many bytes of new ones have been written. -/
def IntRegisters.overwritten (regs new : IntRegisters) (count : Nat) : IntRegisters :=
  .ofBytes (new.bytes.take count ++ regs.bytes.drop count)

end Registers

section Environment

/-- Why the debuggee has stopped. -/
inductive Cause where
  | breakpoint
  | singlestep
  | exit (status : UInt8)
  | signal (number : UInt8)
  | other

/-- What surrounds the handling of a packet: the file operations that fail, in order; how
many bytes a write that fails has written before; what the debuggee does to its memory and
registers when it runs; and the event that stops it, if there is one. -/
structure Environment where
  fails : Faults
  written : Nat
  ran : Memory × IntRegisters → Memory × IntRegisters
  event : Option Cause

variable (env : Environment)

/-- A write that fails has not written everything. -/
def Environment.count (length : Nat) : Nat := min env.written (length - 1)

/-- `write_int_regs` as the given file operations; the flag is whether all was written. -/
def writeIntRegsTo (operation : Nat) (target : Target) (regs : IntRegisters) : Target × Bool :=
  if env.fails operation then
    (target, false)
  else if env.fails (operation + 1) then
    ({ target with
        regsInt := target.regsInt.overwritten regs (env.count regs.bytes.length) }, false)
  else
    ({ target with regsInt := regs }, true)

def stopReply (text : String) (number : UInt8) : String := text ++ String.ofList (hexPair number)

/-- `wait_for_event`, with the response to it. The breakpoint instruction has been executed:
`rip` goes back to it if it can. -/
def waitForEvent (target : Target) : String × Target :=
  if env.fails 1 then
    ("E01", target)
  else
    match env.event with
    | none => (stopReply "W" 0, { target with exited := true })
    | some .breakpoint =>
        match readIntRegs (fun operation => env.fails (operation + 2)) target with
        | some regs =>
            if 0 < regs.rip ∧ regs.rip.toNat - 1 ∈ target.breakpoints then
              (stopReply "S" 5, (writeIntRegsTo env 4 target { regs with rip := regs.rip - 1 }).1)
            else
              (stopReply "S" 5, target)
        | none => (stopReply "S" 5, target)
    | some .singlestep => (stopReply "S" 5, target)
    | some (.exit status) => (stopReply "W" status, { target with exited := true })
    | some (.signal number) => (stopReply "S" number, target)
    | some .other => (stopReply "S" 5, target)

/-- `continue_exec` and `single_step`, which differ in the flags they write. -/
def resumed (_ : Bool) (target : Target) : String × Target :=
  if env.fails 0 then
    ("E01", target)
  else
    let (mem, regsInt) := env.ran (target.mem, target.regsInt)
    waitForEvent env { target with mem, regsInt }

end Environment

section Packets

variable (env : Environment)

def writeMemoryTo (target : Target) (addr : Nat) (data : List UInt8) : Target × Bool :=
  if env.fails 0 then
    (target, false)
  else if env.fails 1 ∧ data ≠ [] then
    ({ target with
        mem := ByteMemory.write target.mem addr (data.take (env.count data.length)) }, false)
  else
    ({ target with mem := ByteMemory.write target.mem addr data }, true)

/-- `handle_packet`: the packets that write several bytes; the others are handled as without
half done writes. -/
def handlePacketIn (target : Target) (data : List UInt8) : Option (String × Target) :=
  match data with
  | [] => some ("", target)
  | first :: params =>
      if first = ascii 'G' then
        match readIntRegs env.fails target, gdbHexToIntRegs params with
        | some _, some regs =>
            match writeIntRegsTo env 2 target regs with
            | (after, true) => some ("OK", after)
            | (after, false) => some ("E01", after)
        | _, _ => some ("E01", target)
      else if first = ascii 'M' then
        match parseWrite params with
        | some (addr, bytes) =>
            match writeMemoryTo env target addr bytes with
            | (after, true) => some ("OK", after)
            | (after, false) => some ("E14", after)
        | none => some ("E01", target)
      else
        handlePacket (resumed env) env.fails target data

/-- Memory, registers and breakpoints are as before. -/
def Unchanged (target after : Target) : Prop :=
  after.mem = target.mem ∧ after.regsInt = target.regsInt ∧
    after.breakpoints = target.breakpoints

/-- There is a response, and an error changes nothing. -/
def Safe (target : Target) (data : List UInt8) : Prop :=
  ∃ response after, handlePacketIn env target data = some (response, after) ∧
    (response = "E01" ∨ response = "E14" → Unchanged target after)

/-- The address and length in an `m` packet. -/
def readOf : List UInt8 → Option (Nat × Nat)
  | [] => none
  | first :: params => if first = ascii 'm' then parseRead params else none

/-- The registers in a `G` packet. -/
def registersOf : List UInt8 → Option IntRegisters
  | [] => none
  | first :: params => if first = ascii 'G' then gdbHexToIntRegs params else none

/-- The packet is longer than `Z0` and `z0`, asks for no more than a vector or the response
can hold, and where a write or a run fails on the way nothing has been changed by then. -/
@[mk_iff] structure Tame (target : Target) (data : List UInt8) : Prop where
  long : data ≠ [ascii 'Z', ascii '0'] ∧ data ≠ [ascii 'z', ascii '0']
  sized : ∀ addr len, readOf data = some (addr, len) → env.fails 0 = false →
    len < 2 ^ 62 ∨ (len < 2 ^ 63 ∧ env.fails 1 = true)
  registers : ∀ regs, registersOf data = some regs → env.fails 0 = false → env.fails 1 = false →
    env.fails 2 = false → env.fails 3 = true →
      target.regsInt.overwritten regs (env.count regs.bytes.length) = target.regsInt
  memory : ∀ addr bytes, writeOf data = some (addr, bytes) → env.fails 0 = false →
    env.fails 1 = true → bytes ≠ [] →
      ByteMemory.write target.mem addr (bytes.take (env.count bytes.length)) = target.mem
  removal : ∀ addr, breakpointOf 'z' data = some addr → addr ∈ target.breakpoints →
    env.fails 0 = false ∧ env.fails 1 = false
  running : data.head? = some (ascii 'c') ∨ data.head? = some (ascii 's') →
    env.fails 0 = false → env.fails 1 = true →
      env.ran (target.mem, target.regsInt) = (target.mem, target.regsInt)

end Packets

section Responses

variable {env : Environment} {target : Target}

theorem stopReply_ne {text : String} {number : UInt8} (known : text = "S" ∨ text = "W") :
    stopReply text number ≠ "E01" ∧ stopReply text number ≠ "E14" := by
  unfold stopReply
  rcases known with rfl | rfl <;> constructor <;> intro same <;>
    exact absurd (congrArg (fun text => text.toList.head?) same) (by simp)

/-- Only a stop that is not seen is an error. -/
theorem waitForEvent_cases (target : Target) :
    (env.fails 1 = true ∧ waitForEvent env target = ("E01", target)) ∨
      (env.fails 1 = false ∧ (waitForEvent env target).1 ≠ "E01" ∧
        (waitForEvent env target).1 ≠ "E14") := by
  unfold waitForEvent
  split
  · rename_i unseen
    exact .inl ⟨unseen, rfl⟩
  · rename_i seen
    refine .inr ⟨by simpa using seen, ?_⟩
    split
    · exact stopReply_ne (.inr rfl)
    · split
      · split <;> exact stopReply_ne (.inl rfl)
      · exact stopReply_ne (.inl rfl)
    · exact stopReply_ne (.inl rfl)
    · exact stopReply_ne (.inr rfl)
    · exact stopReply_ne (.inl rfl)
    · exact stopReply_ne (.inl rfl)

theorem unchanged_refl (target : Target) : Unchanged target target := ⟨rfl, rfl, rfl⟩

theorem resumed_safe (step : Bool) (target : Target) :
    ((resumed env step target).1 = "E01" ∨ (resumed env step target).1 = "E14" →
        Unchanged target (resumed env step target).2) ↔
      (env.fails 0 = false → env.fails 1 = true →
        env.ran (target.mem, target.regsInt) = (target.mem, target.regsInt)) := by
  unfold resumed
  split
  · rename_i unstarted
    simp [unstarted, unchanged_refl]
  · rename_i started
    dsimp only
    rcases @waitForEvent_cases env { target with
        mem := (env.ran (target.mem, target.regsInt)).1
        regsInt := (env.ran (target.mem, target.regsInt)).2 } with ⟨unseen, same⟩ | ⟨seen, other⟩
    · rw [same]
      simp [started, unseen, Unchanged, Prod.ext_iff]
    · simp [seen, other]

variable {data params : List UInt8}

theorem safe_iff {response : String} {after : Target}
    (handled : handlePacketIn env target data = some (response, after)) :
    Safe env target data ↔ (response = "E01" ∨ response = "E14" → Unchanged target after) := by
  constructor
  · rintro ⟨own, left, same, safe⟩
    rw [handled] at same
    cases same
    exact safe
  · intro safe
    exact ⟨response, after, handled, safe⟩

theorem not_safe_of_none (panics : handlePacketIn env target data = none) :
    ¬Safe env target data := by
  rintro ⟨response, after, handled, _⟩
  rw [panics] at handled
  cases handled

theorem safe_of_unchanged {response : String}
    (handled : handlePacketIn env target data = some (response, target)) :
    Safe env target data :=
  (safe_iff handled).mpr fun _ => unchanged_refl target

theorem forall_some_pair {α β : Type} {one : α} {two : β} {property : α → β → Prop} :
    (∀ first second, some (one, two) = some (first, second) → property first second) ↔
      property one two := by
  constructor
  · intro all
    exact all one two rfl
  · intro own first second same
    cases same
    exact own

theorem safe_registers :
    Safe env target (ascii 'G' :: params) ↔ Tame env target (ascii 'G' :: params) := by
  have tame : Tame env target (ascii 'G' :: params) ↔
      ∀ regs, gdbHexToIntRegs params = some regs → env.fails 0 = false → env.fails 1 = false →
        env.fails 2 = false → env.fails 3 = true →
          target.regsInt.overwritten regs (env.count regs.bytes.length) = target.regsInt := by
    rw [tame_iff]
    simp [readOf, registersOf, writeOf, breakpointOf, ascii]
  have handled : handlePacketIn env target (ascii 'G' :: params) =
      match readIntRegs env.fails target, gdbHexToIntRegs params with
      | some _, some regs =>
          match writeIntRegsTo env 2 target regs with
          | (after, true) => some ("OK", after)
          | (after, false) => some ("E01", after)
      | _, _ => some ("E01", target) := rfl
  rw [tame]
  cases read : readIntRegs env.fails target with
  | none =>
      rw [read] at handled
      have unread : env.fails 0 = false → env.fails 1 = true := by
        simpa [readIntRegs] using read
      refine iff_of_true (safe_of_unchanged handled) ?_
      intro regs _ first second
      rw [unread first] at second
      cases second
  | some own =>
      cases given : gdbHexToIntRegs params with
      | none =>
          rw [read, given] at handled
          exact iff_of_true (safe_of_unchanged handled) (by simp)
      | some regs =>
          rw [read, given] at handled
          have readable : env.fails 0 = false ∧ env.fails 1 = false := by
            by_contra unread
            simp [readIntRegs] at read
            simp [read] at unread
          simp only [Option.some.injEq, forall_eq', readable.1, readable.2, true_implies]
          unfold writeIntRegsTo at handled
          cases seek : env.fails 2 with
          | true =>
              rw [seek] at handled
              exact iff_of_true (safe_of_unchanged handled) (by simp)
          | false =>
              cases write : env.fails 3 with
              | true =>
                  rw [seek, write] at handled
                  rw [safe_iff handled]
                  simp [Unchanged]
              | false =>
                  rw [seek, write] at handled
                  rw [safe_iff handled]
                  simp

theorem safe_write :
    Safe env target (ascii 'M' :: params) ↔ Tame env target (ascii 'M' :: params) := by
  have tame : Tame env target (ascii 'M' :: params) ↔
      ∀ addr bytes, parseWrite params = some (addr, bytes) → env.fails 0 = false →
        env.fails 1 = true → bytes ≠ [] →
          ByteMemory.write target.mem addr (bytes.take (env.count bytes.length)) = target.mem := by
    rw [tame_iff]
    simp [readOf, registersOf, writeOf, breakpointOf, ascii]
  have handled : handlePacketIn env target (ascii 'M' :: params) =
      match parseWrite params with
      | some (addr, bytes) =>
          match writeMemoryTo env target addr bytes with
          | (after, true) => some ("OK", after)
          | (after, false) => some ("E14", after)
      | none => some ("E01", target) := rfl
  rw [tame]
  cases given : parseWrite params with
  | none =>
      rw [given] at handled
      exact iff_of_true (safe_of_unchanged handled) (by simp)
  | some own =>
      obtain ⟨addr, bytes⟩ := own
      rw [given] at handled
      rw [forall_some_pair]
      dsimp only at handled
      unfold writeMemoryTo at handled
      cases seek : env.fails 0 with
      | true =>
          rw [seek] at handled
          exact iff_of_true (safe_of_unchanged handled) (by simp)
      | false =>
          rw [seek, if_neg (by decide)] at handled
          by_cases torn : env.fails 1 = true ∧ bytes ≠ []
          · rw [if_pos torn] at handled
            rw [safe_iff handled]
            simp [torn, Unchanged]
          · rw [if_neg torn] at handled
            rw [safe_iff handled]
            simp only [not_and, not_not] at torn
            refine iff_of_true (by simp) ?_
            intro _ failed some_
            exact absurd (torn failed) some_

theorem safe_read :
    Safe env target (ascii 'm' :: params) ↔ Tame env target (ascii 'm' :: params) := by
  have tame : Tame env target (ascii 'm' :: params) ↔
      ∀ addr len, parseRead params = some (addr, len) → env.fails 0 = false →
        len < 2 ^ 62 ∨ (len < 2 ^ 63 ∧ env.fails 1 = true) := by
    rw [tame_iff]
    simp [readOf, registersOf, writeOf, breakpointOf, ascii]
  have handled : handlePacketIn env target (ascii 'm' :: params) =
      handlePacket (resumed env) env.fails target (ascii 'm' :: params) := rfl
  rw [handlePacket_read] at handled
  rw [tame]
  cases given : parseRead params with
  | none =>
      rw [given] at handled
      exact iff_of_true (safe_of_unchanged handled) (by simp)
  | some own =>
      obtain ⟨addr, len⟩ := own
      rw [given] at handled
      rw [forall_some_pair]
      dsimp only at handled
      unfold readMemory at handled
      cases seek : env.fails 0 with
      | true =>
          rw [seek] at handled
          exact iff_of_true (safe_of_unchanged handled) (by simp)
      | false =>
          rw [seek] at handled
          by_cases huge : len ≥ 2 ^ 63
          · rw [if_pos ⟨rfl, huge⟩] at handled
            refine iff_of_false (not_safe_of_none handled) ?_
            intro small
            rcases small rfl with below | ⟨below, _⟩ <;> omega
          · rw [if_neg (by simp only [true_and]; exact huge)] at handled
            have some_ : len ≥ 2 ^ 62 → len ≠ 0 := by omega
            by_cases unread : env.fails 1 = true ∧ len ≠ 0
            · rw [if_pos (by simpa using unread)] at handled
              refine iff_of_true (safe_of_unchanged handled) ?_
              intro _
              exact .inr ⟨by omega, unread.1⟩
            · rw [if_neg (by simpa using unread)] at handled
              dsimp only at handled
              by_cases large : len ≥ 2 ^ 62
              · rw [if_pos large] at handled
                refine iff_of_false (not_safe_of_none handled) ?_
                intro small
                rcases small rfl with below | ⟨_, failed⟩
                · omega
                · exact unread ⟨failed, some_ large⟩
              · rw [if_neg large] at handled
                refine iff_of_true (safe_of_unchanged handled) ?_
                intro _
                exact .inl (by omega)

theorem safe_resumed {first : UInt8} (runs : first = ascii 'c' ∨ first = ascii 's') :
    Safe env target (first :: params) ↔ Tame env target (first :: params) := by
  have tame : Tame env target (first :: params) ↔
      (env.fails 0 = false → env.fails 1 = true →
        env.ran (target.mem, target.regsInt) = (target.mem, target.regsInt)) := by
    rw [tame_iff]
    rcases runs with rfl | rfl <;> simp [readOf, registersOf, writeOf, breakpointOf, ascii]
  rw [tame]
  rcases runs with rfl | rfl
  · rw [safe_iff (rfl : handlePacketIn env target (ascii 'c' :: params) =
      some (resumed env false target))]
    exact resumed_safe false target
  · rw [safe_iff (rfl : handlePacketIn env target (ascii 's' :: params) =
      some (resumed env true target))]
    exact resumed_safe true target

theorem safe_insert :
    Safe env target (ascii 'Z' :: ascii '0' :: params) ↔
      Tame env target (ascii 'Z' :: ascii '0' :: params) := by
  have tame : Tame env target (ascii 'Z' :: ascii '0' :: params) ↔ params ≠ [] := by
    rw [tame_iff]
    simp [readOf, registersOf, writeOf, breakpointOf, ascii]
  have handled : handlePacketIn env target (ascii 'Z' :: ascii '0' :: params) =
      handlePacket (resumed env) env.fails target (ascii 'Z' :: ascii '0' :: params) := rfl
  rw [handlePacket_insert] at handled
  rw [tame]
  cases params with
  | nil => exact iff_of_false (not_safe_of_none handled) (by simp)
  | cons comma params =>
      rw [if_neg (by simp)] at handled
      refine iff_of_true ?_ (by simp)
      cases given : parseBreakpoint ((ascii '0' :: comma :: params).drop 2) with
      | none =>
          rw [given] at handled
          exact safe_of_unchanged handled
      | some addr =>
          rw [given] at handled
          dsimp only at handled
          cases inserted : insertBreakpoint env.fails target addr with
          | none =>
              rw [inserted] at handled
              exact safe_of_unchanged handled
          | some after =>
              rw [inserted] at handled
              exact (safe_iff handled).mpr (by simp)

theorem safe_remove :
    Safe env target (ascii 'z' :: ascii '0' :: params) ↔
      Tame env target (ascii 'z' :: ascii '0' :: params) := by
  have tame : Tame env target (ascii 'z' :: ascii '0' :: params) ↔ params ≠ [] ∧
      ∀ addr, parseBreakpoint ((ascii '0' :: params).drop 2) = some addr →
        addr ∈ target.breakpoints → env.fails 0 = false ∧ env.fails 1 = false := by
    rw [tame_iff]
    simp [readOf, registersOf, writeOf, breakpointOf, ascii]
  have handled : handlePacketIn env target (ascii 'z' :: ascii '0' :: params) =
      handlePacket (resumed env) env.fails target (ascii 'z' :: ascii '0' :: params) := rfl
  rw [handlePacket_remove] at handled
  rw [tame]
  cases params with
  | nil => exact iff_of_false (not_safe_of_none handled) (by simp)
  | cons comma params =>
      rw [if_neg (by simp)] at handled
      rw [and_iff_right (by simp)]
      cases given : parseBreakpoint ((ascii '0' :: comma :: params).drop 2) with
      | none =>
          rw [given] at handled
          exact iff_of_true (safe_of_unchanged handled) (by simp)
      | some addr =>
          rw [given] at handled
          simp only [Option.some.injEq, forall_eq']
          dsimp only at handled
          unfold removeBreakpoint at handled
          cases saved : target.breakpoints.lookup addr with
          | none =>
              rw [saved] at handled
              refine iff_of_true (safe_of_unchanged handled) ?_
              intro inside
              exact absurd inside (AList.lookup_eq_none.mp saved)
          | some orig =>
              rw [saved] at handled
              dsimp only at handled
              have inside : addr ∈ target.breakpoints :=
                AList.lookup_isSome.mp (Option.isSome_of_eq_some saved)
              by_cases failed : (env.fails 0 || env.fails 1) = true
              · rw [if_pos failed] at handled
                rw [safe_iff handled]
                refine iff_of_false ?_ ?_
                · intro unchanged
                  have same := (unchanged (.inl rfl)).2.2
                  rw [← same] at inside
                  exact (AList.mem_erase.mp inside).1 rfl
                · intro restored
                  simp [restored inside] at failed
              · rw [if_neg failed] at handled
                refine iff_of_true ((safe_iff handled).mpr (by simp)) ?_
                intro _
                simpa using failed

/-- Packets that neither write nor run, nor ask for memory. -/
theorem safe_other {first : UInt8}
    (reads : first ≠ ascii 'm') (registers : first ≠ ascii 'G') (writes : first ≠ ascii 'M')
    (runs : ¬(first = ascii 'c' ∨ first = ascii 's'))
    (inserts : ¬(first = ascii 'Z' ∧ params.head? = some (ascii '0')))
    (removes : ¬(first = ascii 'z' ∧ params.head? = some (ascii '0'))) :
    Safe env target (first :: params) ∧ Tame env target (first :: params) := by
  obtain ⟨goes, steps⟩ := not_or.mp runs
  constructor
  · unfold Safe
    simp only [handlePacketIn, handlePacket, if_neg reads, if_neg registers, if_neg writes,
      if_neg goes, if_neg steps, if_neg inserts, if_neg removes]
    have same : ∀ text : String, ∃ response after, some (text, target) = some (response, after) ∧
        (response = "E01" ∨ response = "E14" → Unchanged target after) :=
      fun text => ⟨text, target, rfl, fun _ => unchanged_refl target⟩
    split
    · exact same _
    split
    · split <;> exact same _
    split
    · exact same _
    split
    · split
      · exact same _
      split
      · exact same _
      split <;> exact same _
    split
    · exact ⟨_, _, rfl, fun _ => ⟨rfl, rfl, rfl⟩⟩
    split <;> exact same _
  · rw [tame_iff]
    simp only [readOf, registersOf, writeOf, breakpointOf, if_neg reads, if_neg registers,
      if_neg writes, if_neg removes]
    refine ⟨⟨?_, ?_⟩, by simp, by simp, by simp, by simp, ?_⟩
    · intro whole
      obtain ⟨rfl, rfl⟩ := List.cons.inj whole
      exact inserts ⟨rfl, rfl⟩
    · intro whole
      obtain ⟨rfl, rfl⟩ := List.cons.inj whole
      exact removes ⟨rfl, rfl⟩
    · rintro (first_ | first_)
      · exact absurd (Option.some.inj first_) goes
      · exact absurd (Option.some.inj first_) steps

/-- The stub survives a packet, and leaves the debuggee alone where it answers with an
error, exactly for tame packets. -/
theorem handlePacketIn_safe (env : Environment) (target : Target) (data : List UInt8) :
    Safe env target data ↔ Tame env target data := by
  cases data with
  | nil =>
      refine iff_of_true (safe_of_unchanged rfl) ?_
      rw [tame_iff]
      simp [readOf, registersOf, writeOf, breakpointOf]
  | cons first params =>
      by_cases reads : first = ascii 'm'
      · subst reads
        exact safe_read
      by_cases registers : first = ascii 'G'
      · subst registers
        exact safe_registers
      by_cases writes : first = ascii 'M'
      · subst writes
        exact safe_write
      by_cases runs : first = ascii 'c' ∨ first = ascii 's'
      · exact safe_resumed runs
      by_cases inserts : first = ascii 'Z' ∧ params.head? = some (ascii '0')
      · obtain ⟨rfl, zero⟩ := inserts
        obtain ⟨rest, rfl⟩ := List.head?_eq_some_iff.mp zero
        exact safe_insert
      by_cases removes : first = ascii 'z' ∧ params.head? = some (ascii '0')
      · obtain ⟨rfl, zero⟩ := removes
        obtain ⟨rest, rfl⟩ := List.head?_eq_some_iff.mp zero
        exact safe_remove
      · have both := @safe_other env target params first reads registers writes runs inserts removes
        exact iff_of_true both.1 both.2

/-- Nothing fails, and the debuggee exits without a change. -/
def quiet : Environment := ⟨fun _ => false, 0, id, none⟩

/-- The stub panics on the shortest breakpoint packet. -/
theorem short_insert_panics :
    handlePacketIn quiet (attached 1 default fun _ => 0).stub.target [ascii 'Z', ascii '0'] = none ∧
      ¬Safe quiet (attached 1 default fun _ => 0).stub.target [ascii 'Z', ascii '0'] :=
  ⟨rfl, not_safe_of_none rfl⟩

end Responses

section Agreement

variable {env : Environment} {target : Target} {data : List UInt8}

theorem wordAt_words {values : List UInt64} {index : Nat} {value : UInt64}
    (there : values[index]? = some value) :
    wordAt (values.flatMap fun value => Bytes.toLittleEndian 8 value.toNat) index = value := by
  induction values generalizing index with
  | nil => cases there
  | cons first values ih =>
      have long := Bytes.length_toLittleEndian 8 first.toNat
      unfold wordAt at ih ⊢
      rw [List.flatMap_cons]
      cases index with
      | zero =>
          rw [List.getElem?_cons_zero, Option.some.injEq] at there
          subst there
          rw [Nat.mul_zero, List.drop_zero, List.take_left' long,
            Bytes.littleEndian_toLittleEndian 8 _ (UInt64.toNat_lt first), UInt64.ofNat_toNat]
      | succ index =>
          rw [Nat.mul_add, Nat.mul_one, Nat.add_comm, ← List.drop_drop, List.drop_left' long]
          exact ih there

theorem ofBytes_bytes (regs : IntRegisters) : IntRegisters.ofBytes regs.bytes = regs := by
  have word : ∀ index value, regs.values[index]? = some value →
      wordAt regs.bytes index = value := fun index value there => wordAt_words there
  unfold IntRegisters.ofBytes
  dsimp only
  rw [word 0 regs.r15 rfl, word 1 regs.r14 rfl, word 2 regs.r13 rfl, word 3 regs.r12 rfl,
    word 4 regs.rbp rfl, word 5 regs.rbx rfl, word 6 regs.r11 rfl, word 7 regs.r10 rfl,
    word 8 regs.r9 rfl, word 9 regs.r8 rfl, word 10 regs.rax rfl, word 11 regs.rcx rfl,
    word 12 regs.rdx rfl, word 13 regs.rsi rfl, word 14 regs.rdi rfl, word 15 regs.rip rfl,
    word 16 regs.cs rfl, word 17 regs.rflags rfl, word 18 regs.rsp rfl, word 19 regs.ss rfl]

/-- Where a write that fails has written nothing, packets are handled as `handlePacket`
does. -/
theorem handlePacketIn_eq (untorn : env.written = 0) :
    handlePacketIn env target data = handlePacket (resumed env) env.fails target data := by
  have none_ : ∀ length, env.count length = 0 := by
    intro length
    rw [Environment.count, untorn, Nat.zero_min]
  cases data with
  | nil => rfl
  | cons first params =>
      by_cases registers : first = ascii 'G'
      · subst registers
        rw [handlePacket_registers, handlePacketIn, if_pos rfl]
        cases readIntRegs env.fails target with
        | none => rfl
        | some own =>
            cases gdbHexToIntRegs params with
            | none => rfl
            | some regs =>
                simp only [writeIntRegsTo, writeIntRegs, none_, IntRegisters.overwritten,
                  List.take_zero, List.nil_append, List.drop_zero, ofBytes_bytes]
                cases env.fails 2 <;> cases env.fails 3 <;> rfl
      · by_cases writes : first = ascii 'M'
        · subst writes
          rw [handlePacket_write, handlePacketIn, if_neg (by decide), if_pos rfl]
          cases parseWrite params with
          | none => rfl
          | some own =>
              obtain ⟨addr, bytes⟩ := own
              have unwritten : ByteMemory.write target.mem addr [] = target.mem := by
                funext cell
                simp [ByteMemory.write]
              simp only [writeMemoryTo, writeMemory, none_, List.take_zero, unwritten]
              by_cases some_ : bytes = [] <;> cases env.fails 0 <;> cases env.fails 1 <;>
                simp [some_]
        · rw [handlePacketIn, if_neg registers, if_neg writes]

end Agreement

end NixRedox.Gdbstub
