import NixRedox.Gdbstub
import NixRedox.StepRuns

set_option autoImplicit false

/- What a debugging session leaves in the memory of the debuggee. -/
namespace NixRedox.Gdbstub

open ByteMemory (Memory write_cases write_inside write_single)

/-- What a packet that was answered with `OK` has told the debugger. -/
inductive Note where
  | nothing
  | wrote (addr : Nat) (data : List UInt8)
  | inserted (addr : Nat)
  | removed (addr : Nat)

/-- The address in a `Z0` or `z0` packet. -/
def breakpointOf (letter : Char) : List UInt8 → Option Nat
  | [] => none
  | first :: params =>
      if first = ascii letter ∧ params.head? = some (ascii '0') then
        parseBreakpoint (params.drop 2)
      else
        none

def writeOf : List UInt8 → Option (Nat × List UInt8)
  | [] => none
  | first :: params => if first = ascii 'M' then parseWrite params else none

def noteOf (data : List UInt8) (response : String) : Note :=
  if response = "OK" then
    match writeOf data, breakpointOf 'Z' data, breakpointOf 'z' data with
    | some (addr, bytes), _, _ => .wrote addr bytes
    | none, some addr, _ => .inserted addr
    | none, none, some addr => .removed addr
    | none, none, none => .nothing
  else
    .nothing

/-- The stub with what the debugger knows: the memory as its writes alone would have made
it, and the breakpoints that it has inserted and not removed. -/
structure Observed where
  stub : Stub
  detached : Bool
  written : Memory
  armed : Finset Nat

section Observing

variable (resume : Bool → Target → String × Target)

def Observed.noting (observed : Observed) (stub : Stub) (detached : Bool) : Note → Observed
  | .nothing => { observed with stub, detached }
  | .wrote addr data =>
      { observed with stub, detached, written := ByteMemory.write observed.written addr data }
  | .inserted addr => { observed with stub, detached, armed := insert addr observed.armed }
  | .removed addr => { observed with stub, detached, armed := observed.armed.erase addr }

/-- One turn of the loop; `none` when it is over or the stub panics. -/
def Observed.step (observed : Observed) (event : Event) : Option Observed :=
  if observed.stub.ended then
    none
  else
    (observed.stub.turn resume event).map fun (response, stub) =>
      match event with
      | .disconnected => observed.noting stub observed.detached .nothing
      | .packet data _ _ =>
          observed.noting stub (data.head? = some (ascii 'D')) (noteOf data response)

/-- A session right after attaching. -/
def attached (pid : Nat) (regs : IntRegisters) (mem : Memory) : Observed where
  stub := ⟨⟨pid, regs, mem, ∅, false⟩, false⟩
  detached := false
  written := mem
  armed := ∅

/-- The breakpoints do not show in the memory: what is saved is what belongs there, a
breakpoint is there until it was removed, and without breakpoints or after a detach the
memory is as written. -/
structure Transparent (observed : Observed) : Prop where
  saved : ∀ addr orig, observed.stub.target.breakpoints.lookup addr = some orig →
    orig = observed.written addr
  kept : ∀ addr ∈ observed.armed, addr ∈ observed.stub.target.breakpoints
  restored : observed.armed = ∅ ∨ observed.detached = true →
    observed.stub.target.mem = observed.written

/-- Packets other than those that let the debuggee run. -/
def Halted (_ : Observed) : Event → Prop
  | .disconnected => True
  | .packet data _ _ => data.head? ≠ some (ascii 'c') ∧ data.head? ≠ some (ascii 's')

/-- A write that succeeds puts no other byte than the saved one on a breakpoint, the
removal of a breakpoint does not fail, and a detach finds the saved bytes in place. -/
def Careful (observed : Observed) : Event → Prop
  | .disconnected => True
  | .packet data fails _ =>
      let target := observed.stub.target
      observed.stub.ended = true ∨
        (∀ addr bytes, writeOf data = some (addr, bytes) →
          (fails 0 || (fails 1 && bytes ≠ [])) = false →
          ∀ index byte orig, bytes[index]? = some byte →
            target.breakpoints.lookup (addr + index) = some orig → byte = orig) ∧
        (∀ addr, breakpointOf 'z' data = some addr → addr ∈ target.breakpoints →
          fails 0 = false ∧ fails 1 = false) ∧
        (data.head? = some (ascii 'D') → ∀ addr orig,
          target.breakpoints.lookup addr = some orig → target.mem addr = orig)

end Observing

section Packet

variable {resume : Bool → Target → String × Target} {fails : Faults} {target after : Target}
  {data : List UInt8} {response : String}

/-- The packet leaves memory and breakpoints alone. -/
def Idle (target after : Target) : Prop :=
  after.mem = target.mem ∧ after.breakpoints = target.breakpoints

theorem handlePacket_write (params : List UInt8) :
    handlePacket resume fails target (ascii 'M' :: params) =
      match parseWrite params with
      | some (addr, bytes) =>
          match writeMemory fails target addr bytes with
          | some written => some ("OK", written)
          | none => some ("E14", target)
      | none => some ("E01", target) := rfl

theorem handlePacket_registers (params : List UInt8) :
    handlePacket resume fails target (ascii 'G' :: params) =
      match readIntRegs fails target, gdbHexToIntRegs params with
      | some _, some regs =>
          match writeIntRegs fails target regs with
          | some written => some ("OK", written)
          | none => some ("E01", target)
      | _, _ => some ("E01", target) := rfl

theorem handlePacket_read (params : List UInt8) :
    handlePacket resume fails target (ascii 'm' :: params) =
      match parseRead params with
      | some (addr, len) =>
          if fails 0 = false ∧ len ≥ 2 ^ 63 then
            none
          else
            match readMemory fails target addr len with
            | some bytes => if len ≥ 2 ^ 62 then none else some (hexEncode bytes, target)
            | none => some ("E14", target)
      | none => some ("E01", target) := rfl

theorem handlePacket_insert (params : List UInt8) :
    handlePacket resume fails target (ascii 'Z' :: ascii '0' :: params) =
      if (ascii '0' :: params).length < 2 then
        none
      else
        match parseBreakpoint ((ascii '0' :: params).drop 2) with
        | some addr =>
            match insertBreakpoint fails target addr with
            | some inserted => some ("OK", inserted)
            | none => some ("E01", target)
        | none => some ("E01", target) := rfl

theorem handlePacket_remove (params : List UInt8) :
    handlePacket resume fails target (ascii 'z' :: ascii '0' :: params) =
      if (ascii '0' :: params).length < 2 then
        none
      else
        match parseBreakpoint ((ascii '0' :: params).drop 2) with
        | some addr =>
            match removeBreakpoint fails target addr with
            | (removed, true) => some ("OK", removed)
            | (removed, false) => some ("E01", removed)
        | none => some ("E01", target) := rfl

/-- All other packets. -/
theorem handlePacket_other {first : UInt8} {params : List UInt8}
    (write : first ≠ ascii 'M') (insert : ¬ (first = ascii 'Z' ∧ params.head? = some (ascii '0')))
    (remove : ¬ (first = ascii 'z' ∧ params.head? = some (ascii '0')))
    (continue_ : first ≠ ascii 'c') (step : first ≠ ascii 's')
    (handled : handlePacket resume fails target (first :: params) = some (response, after)) :
    Idle target after := by
  simp only [handlePacket, if_neg write, if_neg insert, if_neg remove, if_neg continue_,
    if_neg step] at handled
  have same : ∀ {text : String}, some (text, target) = some (response, after) →
      Idle target after := by
    intro text same
    cases same
    exact ⟨rfl, rfl⟩
  split at handled
  · exact same handled
  split at handled
  · split at handled <;> exact same handled
  split at handled
  · split at handled
    · rename_i regs _ _
      cases written : writeIntRegs fails target regs with
      | none =>
          rw [written] at handled
          exact same handled
      | some changed =>
          rw [written] at handled
          cases handled
          unfold writeIntRegs at written
          split at written
          · cases written
          · cases written
            exact ⟨rfl, rfl⟩
    · exact same handled
  split at handled
  · split at handled
    · split at handled
      · cases handled
      · split at handled
        · split at handled
          · cases handled
          · exact same handled
        · exact same handled
    · exact same handled
  split at handled
  · exact same handled
  split at handled
  · split at handled
    · exact same handled
    split at handled
    · exact same handled
    split at handled <;> exact same handled
  split at handled
  · cases handled
    exact ⟨rfl, rfl⟩
  split at handled <;> exact same handled

/-- All that a packet can do to memory and breakpoints, by what the debugger is told. -/
def Effect (fails : Faults) (target : Target) (data : List UInt8) (response : String)
    (after : Target) : Prop :=
  match noteOf data response with
  | .wrote addr bytes => writeOf data = some (addr, bytes) ∧
      writeMemory fails target addr bytes = some after
  | .inserted addr => insertBreakpoint fails target addr = some after
  | .removed addr => breakpointOf 'z' data = some addr ∧
      removeBreakpoint fails target addr = (after, true)
  | .nothing => Idle target after ∨ ∃ addr, breakpointOf 'z' data = some addr ∧
      removeBreakpoint fails target addr = (after, false)

theorem effect_idle (note : noteOf data response = .nothing) (idle : Idle target after) :
    Effect fails target data response after := by
  unfold Effect
  rw [note]
  exact .inl idle

/-- An error leaves the target alone. -/
theorem effect_refused {text : String} (refused : text ≠ "OK")
    (same : some (text, target) = some (response, after)) :
    Effect fails target data response after := by
  cases same
  exact effect_idle (if_neg refused) ⟨rfl, rfl⟩

theorem effect_write {params : List UInt8}
    (handled : handlePacket resume fails target (ascii 'M' :: params) = some (response, after)) :
    Effect fails target (ascii 'M' :: params) response after := by
  have write : writeOf (ascii 'M' :: params) = parseWrite params := rfl
  rw [handlePacket_write] at handled
  cases parsed : parseWrite params with
  | none =>
      rw [parsed] at handled
      exact effect_refused (by decide) handled
  | some packet =>
      obtain ⟨addr, bytes⟩ := packet
      rw [parsed] at handled write
      cases written : writeMemory fails target addr bytes with
      | none =>
          simp only [written] at handled
          exact effect_refused (by decide) handled
      | some changed =>
          simp only [written] at handled
          cases handled
          simp only [Effect, noteOf, ↓reduceIte, write]
          exact ⟨trivial, written⟩

theorem effect_insert {params : List UInt8}
    (handled : handlePacket resume fails target (ascii 'Z' :: ascii '0' :: params) =
      some (response, after)) :
    Effect fails target (ascii 'Z' :: ascii '0' :: params) response after := by
  have write : writeOf (ascii 'Z' :: ascii '0' :: params) = none := rfl
  have insert : breakpointOf 'Z' (ascii 'Z' :: ascii '0' :: params) =
      parseBreakpoint ((ascii '0' :: params).drop 2) := rfl
  rw [handlePacket_insert] at handled
  split at handled
  · cases handled
  cases parsed : parseBreakpoint ((ascii '0' :: params).drop 2) with
  | none =>
      rw [parsed] at handled
      exact effect_refused (by decide) handled
  | some addr =>
      rw [parsed] at handled insert
      cases inserted : insertBreakpoint fails target addr with
      | none =>
          simp only [inserted] at handled
          exact effect_refused (by decide) handled
      | some changed =>
          simp only [inserted] at handled
          cases handled
          simp only [Effect, noteOf, ↓reduceIte, write, insert]
          exact inserted

theorem effect_remove {params : List UInt8}
    (handled : handlePacket resume fails target (ascii 'z' :: ascii '0' :: params) =
      some (response, after)) :
    Effect fails target (ascii 'z' :: ascii '0' :: params) response after := by
  have write : writeOf (ascii 'z' :: ascii '0' :: params) = none := rfl
  have insert : breakpointOf 'Z' (ascii 'z' :: ascii '0' :: params) = none := rfl
  have remove : breakpointOf 'z' (ascii 'z' :: ascii '0' :: params) =
      parseBreakpoint ((ascii '0' :: params).drop 2) := rfl
  rw [handlePacket_remove] at handled
  split at handled
  · cases handled
  cases parsed : parseBreakpoint ((ascii '0' :: params).drop 2) with
  | none =>
      rw [parsed] at handled
      exact effect_refused (by decide) handled
  | some addr =>
      rw [parsed] at handled remove
      cases removal : removeBreakpoint fails target addr with
      | mk removed done =>
          cases done with
          | false =>
              simp only [removal] at handled
              cases handled
              have note : noteOf (ascii 'z' :: ascii '0' :: params) "E01" = .nothing :=
                if_neg (by decide)
              unfold Effect
              rw [note]
              exact .inr ⟨addr, remove, removal⟩
          | true =>
              simp only [removal] at handled
              cases handled
              simp only [Effect, noteOf, ↓reduceIte, write, insert, remove]
              exact ⟨trivial, removal⟩

theorem handlePacket_effect
    (halted : data.head? ≠ some (ascii 'c') ∧ data.head? ≠ some (ascii 's'))
    (handled : handlePacket resume fails target data = some (response, after)) :
    Effect fails target data response after := by
  cases data with
  | nil => exact effect_refused (by decide) handled
  | cons first params =>
      by_cases write : first = ascii 'M'
      · subst write
        exact effect_write handled
      by_cases insert : first = ascii 'Z' ∧ params.head? = some (ascii '0')
      · obtain ⟨rfl, head⟩ := insert
        obtain ⟨rest, rfl⟩ := List.head?_eq_some_iff.mp head
        exact effect_insert handled
      by_cases remove : first = ascii 'z' ∧ params.head? = some (ascii '0')
      · obtain ⟨rfl, head⟩ := remove
        obtain ⟨rest, rfl⟩ := List.head?_eq_some_iff.mp head
        exact effect_remove handled
      have note : noteOf (first :: params) response = .nothing := by
        simp only [noteOf, writeOf, breakpointOf, if_neg write, if_neg insert, if_neg remove]
        split <;> rfl
      have continue_ : first ≠ ascii 'c' := fun same => halted.1 (congrArg some same)
      have step : first ≠ ascii 's' := fun same => halted.2 (congrArg some same)
      exact effect_idle note (handlePacket_other write insert remove continue_ step handled)

/-- A write that the stub can make is confirmed. -/
theorem handlePacket_writes {addr : Nat} {bytes : List UInt8}
    (write : writeOf data = some (addr, bytes))
    (works : (fails 0 || (fails 1 && bytes ≠ [])) = false) :
    handlePacket resume fails target data =
      some ("OK", { target with mem := ByteMemory.write target.mem addr bytes }) := by
  cases data with
  | nil => cases write
  | cons first params =>
      by_cases letter : first = ascii 'M'
      · subst letter
        have parsed : parseWrite params = some (addr, bytes) := write
        have written : writeMemory fails target addr bytes =
            some { target with mem := ByteMemory.write target.mem addr bytes } := by
          rw [writeMemory, works]
          rfl
        rw [handlePacket_write, parsed]
        simp only [written]
      · rw [writeOf, if_neg letter] at write
        cases write

theorem handlePacket_removes {addr : Nat} (remove : breakpointOf 'z' data = some addr) :
    handlePacket resume fails target data =
      some (if (removeBreakpoint fails target addr).2 then "OK" else "E01",
        (removeBreakpoint fails target addr).1) := by
  cases data with
  | nil => cases remove
  | cons first params =>
      by_cases letter : first = ascii 'z' ∧ params.head? = some (ascii '0')
      · rw [breakpointOf, if_pos letter] at remove
        obtain ⟨rfl, head⟩ := letter
        obtain ⟨rest, rfl⟩ := List.head?_eq_some_iff.mp head
        have long : ¬ (ascii '0' :: rest).length < 2 := by
          cases rest with
          | nil => cases remove
          | cons _ _ => simp
        rw [handlePacket_remove, if_neg long, remove]
        cases removal : removeBreakpoint fails target addr with
        | mk removed done => cases done <;> simp [removal]
      · rw [breakpointOf, if_neg letter] at remove
        cases remove

theorem handlePacket_detach (detach : data.head? = some (ascii 'D')) :
    handlePacket resume fails target data = some ("OK", target) := by
  obtain ⟨params, rfl⟩ := List.head?_eq_some_iff.mp detach
  rfl

theorem noteOf_detach (detach : data.head? = some (ascii 'D')) :
    noteOf data response = .nothing := by
  obtain ⟨params, rfl⟩ := List.head?_eq_some_iff.mp detach
  unfold noteOf
  split <;> rfl

theorem noteOf_error : noteOf data "E01" = .nothing := if_neg (by decide)

end Packet

section Operations

variable {fails : Faults} {target after : Target} {written : Memory} {armed : Finset Nat}
  {addr : Nat}

/-- Outside of the breakpoints the memory is as written. -/
structure Coherent (target : Target) (written : Memory) (armed : Finset Nat) : Prop where
  saved : ∀ addr orig, target.breakpoints.lookup addr = some orig → orig = written addr
  armed : ∀ addr, addr ∈ armed ↔ addr ∈ target.breakpoints
  elsewhere : ∀ addr, addr ∉ target.breakpoints → target.mem addr = written addr

theorem coherent_idle (coherent : Coherent target written armed) (idle : Idle target after) :
    Coherent after written armed := by
  obtain ⟨mem, breakpoints⟩ := idle
  constructor
  · rw [breakpoints]
    exact coherent.saved
  · rw [breakpoints]
    exact coherent.armed
  · rw [breakpoints, mem]
    exact coherent.elsewhere

theorem coherent_write {bytes : List UInt8} (coherent : Coherent target written armed)
    (careful : ∀ index byte orig, bytes[index]? = some byte →
      target.breakpoints.lookup (addr + index) = some orig → byte = orig)
    (wrote : writeMemory fails target addr bytes = some after) :
    Coherent after (ByteMemory.write written addr bytes) armed := by
  unfold writeMemory at wrote
  split at wrote
  · cases wrote
  cases wrote
  constructor
  · intro cell orig found
    rcases write_cases addr bytes cell with ⟨index, byte, inside, rfl⟩ | same
    · rw [write_inside inside, careful index byte orig inside found]
    · rw [same, coherent.saved cell orig found]
  · exact coherent.armed
  · intro cell free
    show ByteMemory.write target.mem addr bytes cell = ByteMemory.write written addr bytes cell
    rcases write_cases addr bytes cell with ⟨index, byte, inside, rfl⟩ | same
    · rw [write_inside inside, write_inside inside]
    · rw [same, same, coherent.elsewhere cell free]

theorem coherent_insert (coherent : Coherent target written armed)
    (inserted : insertBreakpoint fails target addr = some after) :
    Coherent after written (insert addr armed) := by
  unfold insertBreakpoint at inserted
  split at inserted
  · rename_i present
    cases inserted
    have same : insert addr armed = armed :=
      Finset.insert_eq_of_mem ((coherent.armed addr).mpr present)
    rw [same]
    exact coherent
  rename_i absent
  split at inserted
  · cases inserted
  cases inserted
  constructor
  · intro cell orig found
    by_cases same : cell = addr
    · subst same
      rw [AList.lookup_insert] at found
      cases found
      exact coherent.elsewhere cell absent
    · rw [AList.lookup_insert_ne same] at found
      exact coherent.saved cell orig found
  · intro cell
    rw [Finset.mem_insert, AList.mem_insert, coherent.armed]
  · intro cell free
    rw [AList.mem_insert, not_or] at free
    show ByteMemory.write target.mem addr [0xCC] cell = written cell
    rw [write_single free.1]
    exact coherent.elsewhere cell free.2

theorem coherent_remove (coherent : Coherent target written armed)
    (removed : removeBreakpoint fails target addr = (after, true)) :
    Coherent after written (armed.erase addr) := by
  unfold removeBreakpoint at removed
  split at removed
  · rename_i absent
    cases removed
    have same : armed.erase addr = armed := by
      apply Finset.erase_eq_of_notMem
      rw [coherent.armed]
      exact AList.lookup_eq_none.mp absent
    rw [same]
    exact coherent
  rename_i orig found
  dsimp only at removed
  split at removed
  · cases removed
  cases removed
  have belongs := coherent.saved addr orig found
  constructor
  · intro cell other kept
    by_cases same : cell = addr
    · subst same
      rw [AList.lookup_erase] at kept
      cases kept
    · rw [AList.lookup_erase_ne same] at kept
      exact coherent.saved cell other kept
  · intro cell
    rw [Finset.mem_erase, AList.mem_erase, coherent.armed]
  · intro cell free
    show ByteMemory.write target.mem addr [orig] cell = written cell
    by_cases same : cell = addr
    · subst same
      have first : ([orig] : List UInt8)[0]? = some orig := rfl
      exact (write_inside first).trans belongs
    · rw [write_single same]
      apply coherent.elsewhere
      intro inside
      exact free (AList.mem_erase.mpr ⟨same, inside⟩)

end Operations

section Session

variable {resume : Bool → Target → String × Target} {observed next : Observed}

/-- The invariant of a session. -/
structure Sound (observed : Observed) : Prop where
  coherent : Coherent observed.stub.target observed.written observed.armed
  restored : observed.detached = true → observed.stub.target.mem = observed.written

theorem transparent_of_sound (sound : Sound observed) : Transparent observed := by
  obtain ⟨coherent, restored⟩ := sound
  refine ⟨coherent.saved, fun addr armed => (coherent.armed addr).mp armed, ?_⟩
  intro either
  cases either with
  | inr detached => exact restored detached
  | inl none =>
      funext addr
      apply coherent.elsewhere
      rw [← coherent.armed, none]
      exact Finset.notMem_empty addr

theorem sound_attached (pid : Nat) (regs : IntRegisters) (mem : Memory) :
    Sound (attached pid regs mem) := by
  constructor
  · constructor
    · intro addr orig found
      cases found
    · intro addr
      exact iff_of_false (Finset.notMem_empty addr) (AList.notMem_empty addr)
    · intro addr _
      rfl
  · intro detached
    cases detached

/-- The steps that are not a disconnection. -/
theorem step_packet {data : List UInt8} {fails : Faults} {sent : Bool}
    (stepped : observed.step resume (.packet data fails sent) = some next) :
    observed.stub.ended = false ∧ ∃ response stub,
      handlePacket resume fails observed.stub.target data = some (response, stub.target) ∧
      next = observed.noting stub (data.head? = some (ascii 'D')) (noteOf data response) := by
  unfold Observed.step at stepped
  split at stepped
  · cases stepped
  rename_i running
  rw [Bool.not_eq_true] at running
  obtain ⟨⟨response, stub⟩, turned, rfl⟩ := Option.map_eq_some_iff.mp stepped
  obtain ⟨⟨text, after⟩, handled, same⟩ := Option.map_eq_some_iff.mp turned
  cases same
  exact ⟨running, _, _, handled, rfl⟩

theorem step_none {data : List UInt8} {fails : Faults} {sent : Bool}
    (running : observed.stub.ended = false)
    (stopped : observed.step resume (.packet data fails sent) = none) :
    handlePacket resume fails observed.stub.target data = none := by
  simp only [Observed.step, running, Bool.false_eq_true, ↓reduceIte, Option.map_eq_none_iff,
    Stub.turn] at stopped
  exact stopped

/-- A removal that fails makes the table lose the breakpoint. -/
theorem removeBreakpoint_failed {fails : Faults} {target after : Target} {addr : Nat}
    (failed : removeBreakpoint fails target addr = (after, false)) :
    addr ∈ target.breakpoints ∧ (fails 0 || fails 1) = true := by
  unfold removeBreakpoint at failed
  split at failed
  · cases failed
  rename_i orig found
  dsimp only at failed
  split at failed
  · rename_i fault
    exact ⟨AList.lookup_isSome.mp (by rw [found]; rfl), fault⟩
  · cases failed

/-- A detach with the saved bytes in place leaves the memory as written. -/
theorem restored_of_saved {target : Target} {written : Memory} {armed : Finset Nat}
    (coherent : Coherent target written armed)
    (inPlace : ∀ addr orig, target.breakpoints.lookup addr = some orig → target.mem addr = orig) :
    target.mem = written := by
  funext addr
  cases found : target.breakpoints.lookup addr with
  | none => exact coherent.elsewhere addr (AList.lookup_eq_none.mp found)
  | some orig => exact (inPlace addr orig found).trans (coherent.saved addr orig found)

theorem sound_packet {data : List UInt8} {fails : Faults} {sent : Bool} (sound : Sound observed)
    (halted : Halted observed (.packet data fails sent))
    (careful : Careful observed (.packet data fails sent))
    (stepped : observed.step resume (.packet data fails sent) = some next) : Sound next := by
  obtain ⟨coherent, _⟩ := sound
  obtain ⟨running, response, stub, handled, rfl⟩ := step_packet stepped
  obtain ⟨writes, removes, detaches⟩ :=
    careful.resolve_left (by rw [running]; exact Bool.false_ne_true)
  have effect := handlePacket_effect halted handled
  have stays : noteOf data response ≠ .nothing → data.head? ≠ some (ascii 'D') := by
    intro told detach
    exact told (noteOf_detach detach)
  unfold Effect at effect
  cases note : noteOf data response with
  | wrote addr bytes =>
      rw [note] at effect stays
      obtain ⟨write, wrote⟩ := effect
      have works : (fails 0 || (fails 1 && bytes ≠ [])) = false := by
        rw [← Bool.not_eq_true]
        intro fault
        rw [writeMemory, if_pos fault] at wrote
        cases wrote
      refine ⟨coherent_write coherent (writes addr bytes write works) wrote, fun detached => ?_⟩
      exact absurd (of_decide_eq_true detached) (stays Note.noConfusion)
  | inserted addr =>
      rw [note] at effect stays
      refine ⟨coherent_insert coherent effect, fun detached => ?_⟩
      exact absurd (of_decide_eq_true detached) (stays Note.noConfusion)
  | removed addr =>
      rw [note] at effect stays
      refine ⟨coherent_remove coherent effect.2, fun detached => ?_⟩
      exact absurd (of_decide_eq_true detached) (stays Note.noConfusion)
  | nothing =>
      rw [note] at effect
      cases effect with
      | inl idle =>
          refine ⟨coherent_idle coherent idle, fun detached => ?_⟩
          have inPlace := detaches (of_decide_eq_true detached)
          exact idle.1.trans (restored_of_saved coherent inPlace)
      | inr failed =>
          obtain ⟨addr, remove, removal⟩ := failed
          obtain ⟨present, fault⟩ := removeBreakpoint_failed removal
          obtain ⟨first, second⟩ := removes addr remove present
          rw [first, second] at fault
          cases fault

theorem sound_step (event : Event) (sound : Sound observed) (halted : Halted observed event)
    (careful : Careful observed event) (stepped : observed.step resume event = some next) :
    Sound next := by
  cases event with
  | packet data fails sent => exact sound_packet sound halted careful stepped
  | disconnected =>
      unfold Observed.step at stepped
      split at stepped
      · cases stepped
      · cases stepped
        exact ⟨sound.coherent, sound.restored⟩

theorem careful_of_stopped (event : Event)
    (stopped : observed.step resume event = none) : Careful observed event := by
  cases event with
  | disconnected => trivial
  | packet data fails sent =>
      cases running : observed.stub.ended with
      | true => exact .inl running
      | false =>
          have panics := step_none running stopped
          refine .inr ⟨?_, ?_, ?_⟩
          · intro addr bytes write works
            rw [handlePacket_writes write works] at panics
            cases panics
          · intro addr remove
            rw [handlePacket_removes remove] at panics
            cases panics
          · intro detach
            rw [handlePacket_detach detach] at panics
            cases panics

section Necessary

variable {data : List UInt8} {fails : Faults} {sent : Bool}

/-- The step of a packet whose handling is known. -/
theorem step_handled {response : String} {after : Target}
    (stepped : observed.step resume (.packet data fails sent) = some next)
    (known : handlePacket resume fails observed.stub.target data = some (response, after)) :
    ∃ stub, stub.target = after ∧
      next = observed.noting stub (data.head? = some (ascii 'D')) (noteOf data response) := by
  obtain ⟨_, text, stub, handled, rfl⟩ := step_packet stepped
  rw [known] at handled
  cases handled
  exact ⟨stub, rfl, rfl⟩

theorem write_keeps_saved {addr index : Nat} {bytes : List UInt8} {byte orig : UInt8}
    (stepped : observed.step resume (.packet data fails sent) = some next)
    (transparent : Transparent next) (write : writeOf data = some (addr, bytes))
    (works : (fails 0 || (fails 1 && bytes ≠ [])) = false)
    (inside : bytes[index]? = some byte)
    (found : observed.stub.target.breakpoints.lookup (addr + index) = some orig) :
    byte = orig := by
  obtain ⟨stub, after, rfl⟩ := step_handled stepped (handlePacket_writes write works)
  have told : noteOf data "OK" = .wrote addr bytes := by
    simp only [noteOf, ↓reduceIte, write]
  rw [told] at transparent
  have belongs : orig = ByteMemory.write observed.written addr bytes (addr + index) := by
    apply transparent.saved
    show stub.target.breakpoints.lookup (addr + index) = some orig
    rw [after]
    exact found
  rw [belongs, write_inside inside]

theorem removal_works {addr : Nat} (sound : Sound observed)
    (stepped : observed.step resume (.packet data fails sent) = some next)
    (transparent : Transparent next) (remove : breakpointOf 'z' data = some addr)
    (present : addr ∈ observed.stub.target.breakpoints) :
    (fails 0 || fails 1) = false := by
  rw [← Bool.not_eq_true]
  intro fault
  obtain ⟨orig, found⟩ := Option.isSome_iff_exists.mp (AList.lookup_isSome.mpr present)
  have lost : removeBreakpoint fails observed.stub.target addr =
      ({ observed.stub.target with
          breakpoints := observed.stub.target.breakpoints.erase addr }, false) := by
    simp only [removeBreakpoint, found, fault, ↓reduceIte]
  have handled : handlePacket resume fails observed.stub.target data = _ :=
    handlePacket_removes remove
  rw [lost] at handled
  obtain ⟨stub, after, rfl⟩ := step_handled stepped handled
  have told : noteOf data (if false then "OK" else "E01") = .nothing := noteOf_error
  rw [told] at transparent
  have kept : addr ∈ stub.target.breakpoints :=
    transparent.kept addr ((sound.coherent.armed addr).mpr present)
  rw [after] at kept
  exact (AList.mem_erase.mp kept).1 rfl

theorem detach_in_place {addr : Nat} {orig : UInt8} (sound : Sound observed)
    (stepped : observed.step resume (.packet data fails sent) = some next)
    (transparent : Transparent next) (detach : data.head? = some (ascii 'D'))
    (found : observed.stub.target.breakpoints.lookup addr = some orig) :
    observed.stub.target.mem addr = orig := by
  obtain ⟨stub, after, rfl⟩ := step_handled stepped (handlePacket_detach detach)
  rw [noteOf_detach detach] at transparent
  have restored : stub.target.mem = observed.written :=
    transparent.restored (.inr (decide_eq_true detach))
  rw [after] at restored
  rw [restored, sound.coherent.saved addr orig found]

theorem careful_of_transparent (event : Event) (sound : Sound observed)
    (stepped : observed.step resume event = some next) (transparent : Transparent next) :
    Careful observed event := by
  cases event with
  | disconnected => trivial
  | packet data fails sent =>
      refine .inr ⟨?_, ?_, ?_⟩
      · intro addr bytes write works index byte orig inside found
        exact write_keeps_saved stepped transparent write works inside found
      · intro addr remove present
        exact Bool.or_eq_false_iff.mp (removal_works sound stepped transparent remove present)
      · intro detach addr orig found
        exact detach_in_place sound stepped transparent detach found

end Necessary

end Session

section Sessions

variable {resume : Bool → Target → String × Target}

/-- The stub keeps breakpoints out of the memory exactly in the sessions that are careful
at every packet: it leaves the saved bytes alone when a write crosses a breakpoint, forgets
a breakpoint whose removal fails, and does not take the breakpoints out on a detach. -/
theorem breakpoints_transparent_iff (pid : Nat) (regs : IntRegisters) (mem : Memory)
    (packets : List Event)
    (halted : StepRuns.EachMeets (Observed.step resume) Halted (attached pid regs mem) packets) :
    StepRuns.Throughout (Observed.step resume) Transparent (attached pid regs mem) packets ↔
      StepRuns.EachMeets (Observed.step resume) Careful (attached pid regs mem) packets := by
  have stops : ∀ observed event, Halted observed event →
      observed.step resume event = none → Careful observed event := by
    intro observed event _ stopped
    exact careful_of_stopped event stopped
  have decides : ∀ observed event next, Sound observed → Halted observed event →
      observed.step resume event = some next → Transparent next → Careful observed event := by
    intro observed event next sound _ stepped transparent
    exact careful_of_transparent event sound stepped transparent
  have keeps : ∀ observed event next, Sound observed → Halted observed event →
      Careful observed event → observed.step resume event = some next → Sound next := by
    intro observed event next sound halted careful stepped
    exact sound_step event sound halted careful stepped
  exact StepRuns.throughout_iff_of_invariant (fun _ => transparent_of_sound) stops decides keeps
    (sound_attached pid regs mem) halted

/-- A packet whose file operations all work. -/
def served (text : String) : Event := .packet (text.toList.map ascii) (fun _ => false) true

def undisturbed (_ : Bool) (target : Target) : String × Target := ("", target)

def breakpointAt (addr : Nat) (mem : Memory) : Observed where
  stub :=
    ⟨⟨7, default, ByteMemory.write mem addr [0xCC], AList.insert addr (mem addr) ∅, false⟩, false⟩
  detached := false
  written := mem
  armed := insert addr ∅

theorem step_insert_first :
    (attached 7 default fun _ => 0x90).step undisturbed (served "Z0,10,1") =
      some (breakpointAt 16 fun _ => 0x90) := rfl

theorem halted_served {text : String} (other : (text.toList.map ascii).head? ≠ some (ascii 'c') ∧
    (text.toList.map ascii).head? ≠ some (ascii 's')) (observed : Observed) :
    Halted observed (served text) := other

theorem insert_remove_transparent :
    StepRuns.Throughout (Observed.step undisturbed) Transparent
      (attached 7 default fun _ => 0x90) [served "Z0,10,1", served "z0,10,1"] := by
  apply (breakpoints_transparent_iff _ _ _ _ _).mpr
  · rw [StepRuns.eachMeets_cons]
    constructor
    · refine .inr ⟨?_, ?_, ?_⟩
      · intro addr bytes write
        cases write
      · intro addr remove
        cases remove
      · intro detach
        exact absurd detach (by decide)
    intro next stepped
    rw [step_insert_first, Option.some.injEq] at stepped
    subst stepped
    rw [StepRuns.eachMeets_cons]
    refine ⟨.inr ⟨?_, ?_, ?_⟩, fun _ _ => StepRuns.eachMeets_nil⟩
    · intro addr bytes write
      cases write
    · intro addr remove present
      exact ⟨rfl, rfl⟩
    · intro detach
      exact absurd detach (by decide)
  · apply StepRuns.eachMeets_of_forall
    intro event inside
    simp only [List.mem_cons, List.not_mem_nil, or_false] at inside
    rcases inside with rfl | rfl
    · exact halted_served (by decide)
    · exact halted_served (by decide)

/-- A detach leaves the breakpoint instruction in the program. -/
theorem breakpoint_left_at_detach :
    ¬ ∀ (resume : Bool → Target → String × Target) (pid : Nat) (regs : IntRegisters)
        (mem : Memory) (packets : List Event),
        StepRuns.EachMeets (Observed.step resume) Halted (attached pid regs mem) packets →
          StepRuns.Throughout (Observed.step resume) Transparent (attached pid regs mem)
            packets := by
  intro always
  let session := [served "Z0,10,1", served "D"]
  have halted : StepRuns.EachMeets (Observed.step undisturbed) Halted
      (attached 7 default fun _ => 0x90) session := by
    apply StepRuns.eachMeets_of_forall
    intro event inside
    simp only [session, List.mem_cons, List.not_mem_nil, or_false] at inside
    rcases inside with rfl | rfl
    · exact halted_served (by decide)
    · exact halted_served (by decide)
  let inserted := breakpointAt 16 fun _ => 0x90
  let left : Observed := { inserted with
    stub := { inserted.stub with ended := true }, detached := true }
  have ran : StepRuns.runAll (Observed.step undisturbed) (attached 7 default fun _ => 0x90)
      session = some left := rfl
  have transparent := always undisturbed 7 default (fun _ => 0x90) session halted session []
    left (List.append_nil _) ran
  have restored := congrFun (transparent.restored (.inr rfl)) 16
  exact absurd restored (by decide)

end Sessions

end NixRedox.Gdbstub
