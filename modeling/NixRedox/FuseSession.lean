import Mathlib.Data.Nat.Log
import NixRedox.CheckedWords
import NixRedox.TailCalls
import NixRedox.VirtioFs

set_option autoImplicit false

/- Reading and writing of `session.rs`, down to the bytes that `transport.rs` exchanges with the
host: the handshake, single requests, and the loops over chunks. -/
namespace NixRedox.FuseIo

open CheckedWords (checkedAdd)
open VirtioFs (FuseTransportError numberAt)

section Transport

def PAGE_SIZE : Nat := 4096

def META_RESPONSE : Nat := 4096

def MAX_IO_SIZE : Nat := 1024 * 1024

/-- The sizes of `FuseInHeader`, `FuseReadIn`, `FuseWriteIn`, `FuseOutHeader`, `FuseWriteOut` and
`FuseInitOut`. -/
def inHeader : Nat := 40
def readIn : Nat := 40
def writeIn : Nat := 40
def outHeader : Nat := 16
def writeOut : Nat := 8
def initOut : Nat := 64

/-- The smallest power of two that is not below the number. -/
def nextPowerOfTwo (pages : Nat) : Nat := 2 ^ Nat.clog 2 pages

def roundToP2Pages (size : Nat) : Nat :=
  nextPowerOfTwo ((size + PAGE_SIZE - 1) / PAGE_SIZE) * PAGE_SIZE

/-- The two buffers that the session allocates. -/
def reqCapacity : Nat := roundToP2Pages (inHeader + writeIn + MAX_IO_SIZE)

def respCapacity : Nat := roundToP2Pages (outHeader + MAX_IO_SIZE)

inductive IoRequest where
  | read (nodeid fh offset : UInt64) (size : UInt32)
  | write (nodeid fh offset : UInt64) (size : UInt32) (data : List UInt8)
  deriving DecidableEq, Repr

namespace IoRequest

/-- The bytes of a file that the request is about. -/
def payload : IoRequest → Nat
  | .read _ _ _ size => size.toNat
  | .write _ _ _ _ data => data.length

def length : IoRequest → Nat
  | .read .. => inHeader + readIn
  | .write _ _ _ _ data => inHeader + writeIn + data.length

/-- The size of the reply descriptor. -/
def replyLength : IoRequest → Nat
  | .read _ _ _ size => outHeader + size.toNat
  | .write .. => META_RESPONSE

end IoRequest

/-- The host takes a request and writes some bytes of a reply. -/
abbrev Device (World : Type) := World → IoRequest → World × List UInt8

/-- The check of a reply that the device says it has written. -/
def completed (room : Nat) (written : List UInt8) : Except FuseTransportError (List UInt8) :=
  if room < written.length then .error .unexpectedSize
  else if written.length < outHeader then .error (.shortResponse written.length)
  else .ok written

def FuseTransport.exchange {World : Type} (device : Device World) (world : World)
    (request : IoRequest) : World × Except FuseTransportError (List UInt8) :=
  if reqCapacity < request.length then
    (world, .error (.requestTooLarge request.length))
  else if respCapacity < request.replyLength then
    (world, .error (.requestTooLarge request.replyLength))
  else
    let (world, written) := device world request
    (world, completed request.replyLength written)

/-- The `error` field, an `i32`. -/
def errorField (data : List UInt8) : Int :=
  let field := numberAt data 4 4
  if field < 2 ^ 31 then field else field - 2 ^ 32

def parseResponseHeader (data : List UInt8) : Except FuseTransportError Unit :=
  if data.length < outHeader then .error (.shortResponse data.length)
  else if errorField data < 0 then .error (.fuseError (errorField data))
  else .ok ()

def responseBody (data : List UInt8) : List UInt8 :=
  if outHeader < data.length then data.drop outHeader else []

/-- The body of a reply that is accepted. -/
def acceptedBody (resp : Except FuseTransportError (List UInt8)) :
    Except FuseTransportError (List UInt8) := do
  let data ← resp
  parseResponseHeader data
  .ok (responseBody data)

end Transport

/-- What of a session decides how it reads and writes. -/
structure FuseSession where
  maxWrite : UInt32
  deriving DecidableEq, Repr

def FuseSession.effectiveMaxIo (session : FuseSession) : Nat :=
  min session.maxWrite.toNat MAX_IO_SIZE

/-- What `init` makes of the reply to `FUSE_INIT`. -/
def init (written : List UInt8) : Except FuseTransportError FuseSession := do
  let body ← acceptedBody (completed META_RESPONSE written)
  if body.length < initOut then
    .error .unexpectedSize
  else
    .ok ⟨UInt32.ofNat (numberAt body 20 4)⟩

/-- Why a call does not give a value. `overflow` is a counter that leaves its type. -/
inductive IoFault where
  | failed (error : FuseTransportError)
  | overflow
  deriving DecidableEq, Repr

section Read

variable {World : Type} (device : Device World) (nodeid fh : UInt64)

def readSingle (world : World) (offset : UInt64) (size : UInt32) :
    World × Except FuseTransportError (List UInt8) :=
  let (world, resp) := FuseTransport.exchange device world (.read nodeid fh offset size)
  (world, acceptedBody resp)

structure ReadState (World : Type) where
  world : World
  currentOffset : UInt64
  remaining : Nat
  result : List UInt8

variable (session : FuseSession)

/-- A turn of the loop of `read`. -/
def readTurn (state : ReadState World) :
    ReadState World ⊕ (World × Except IoFault (List UInt8)) :=
  if state.remaining = 0 then
    .inr (state.world, .ok state.result)
  else
    let chunkSize := min state.remaining session.effectiveMaxIo
    match readSingle device nodeid fh state.world state.currentOffset (UInt32.ofNat chunkSize) with
    | (world, .error reason) => .inr (world, .error (.failed reason))
    | (world, .ok chunk) =>
        let got := chunk.length
        match checkedAdd state.currentOffset (UInt64.ofNat got) with
        | none => .inr (world, .error .overflow)
        | some currentOffset =>
            if state.remaining < got then
              .inr (world, .error .overflow)
            else if got < (UInt32.ofNat chunkSize).toNat then
              .inr (world, .ok (state.result ++ chunk))
            else
              .inl
                { world
                  currentOffset
                  remaining := state.remaining - got
                  result := state.result ++ chunk }

/-- `FuseSession::read`, as far as it comes in so many turns. -/
def read (fuel : Nat) (world : World) (offset : UInt64) (size : UInt32) :
    Option (World × Except IoFault (List UInt8)) :=
  if size.toNat ≤ session.effectiveMaxIo then
    let (world, chunk) := readSingle device nodeid fh world offset size
    some (world, chunk.mapError .failed)
  else
    TailCalls.run (readTurn device nodeid fh session) fuel ⟨world, offset, size.toNat, []⟩

end Read

section Write

variable {World : Type} (device : Device World) (nodeid fh : UInt64)

/-- The count in the body of a reply. -/
def writtenCount (body : List UInt8) : Except FuseTransportError UInt32 :=
  if body.length < writeOut then .error .unexpectedSize
  else .ok (UInt32.ofNat (numberAt body 0 4))

def writeSingle (world : World) (offset : UInt64) (data : List UInt8) :
    World × Except FuseTransportError UInt32 :=
  let (world, resp) := FuseTransport.exchange device world
    (.write nodeid fh offset (UInt32.ofNat data.length) data)
  (world, acceptedBody resp >>= writtenCount)

structure WriteState (World : Type) where
  world : World
  totalWritten : UInt32
  currentOffset : UInt64
  remaining : List UInt8

variable (session : FuseSession)

/-- A turn of the loop of `write`. -/
def writeTurn (state : WriteState World) : WriteState World ⊕ (World × Except IoFault UInt32) :=
  if state.remaining = [] then
    .inr (state.world, .ok state.totalWritten)
  else
    let chunkSize := min state.remaining.length session.effectiveMaxIo
    match writeSingle device nodeid fh state.world state.currentOffset
        (state.remaining.take chunkSize) with
    | (world, .error reason) => .inr (world, .error (.failed reason))
    | (world, .ok written) =>
        if 2 ^ 32 ≤ state.totalWritten.toNat + written.toNat then
          .inr (world, .error .overflow)
        else
          match checkedAdd state.currentOffset written.toUInt64 with
          | none => .inr (world, .error .overflow)
          | some currentOffset =>
              if written.toNat < chunkSize then
                .inr (world, .ok (state.totalWritten + written))
              else
                .inl
                  { world
                    totalWritten := state.totalWritten + written
                    currentOffset
                    remaining := state.remaining.drop chunkSize }

/-- `FuseSession::write`, as far as it comes in so many turns. -/
def write (fuel : Nat) (world : World) (offset : UInt64) (data : List UInt8) :
    Option (World × Except IoFault UInt32) :=
  if data.length ≤ session.effectiveMaxIo then
    let (world, written) := writeSingle device nodeid fh world offset data
    some (world, written.mapError .failed)
  else
    TailCalls.run (writeTurn device nodeid fh session) fuel ⟨world, 0, offset, data⟩

end Write

section ReadTurns

variable {World : Type} {device : Device World} {nodeid fh : UInt64} {session : FuseSession}

/-- What has been asked for after so many turns, and what the next turn asks for. -/
def asked (session : FuseSession) (total turn : Nat) : Nat :=
  min (turn * session.effectiveMaxIo) total

def chunkSize (session : FuseSession) (total turn : Nat) : Nat :=
  min (total - turn * session.effectiveMaxIo) session.effectiveMaxIo

theorem effectiveMaxIo_le (session : FuseSession) : session.effectiveMaxIo ≤ MAX_IO_SIZE :=
  Nat.min_le_right _ _

theorem chunkSize_le (session : FuseSession) (total turn : Nat) :
    chunkSize session total turn ≤ MAX_IO_SIZE :=
  (Nat.min_le_right _ _).trans (effectiveMaxIo_le session)

theorem asked_succ (session : FuseSession) (total turn : Nat) :
    asked session total (turn + 1) = asked session total turn + chunkSize session total turn := by
  unfold asked chunkSize
  rw [Nat.succ_mul]
  omega

theorem chunk_word (session : FuseSession) (total turn : Nat) :
    (UInt32.ofNat (chunkSize session total turn)).toNat = chunkSize session total turn := by
  have small := chunkSize_le session total turn
  unfold MAX_IO_SIZE at small
  rw [UInt32.toNat_ofNat', Nat.mod_eq_of_lt (by omega)]

/-- The replies to the turns of a loop: the host after each, and what the reply gives. -/
structure Replies (World Value : Type) where
  worlds : Nat → World
  values : Nat → Except FuseTransportError Value

/-- The bytes that came in the first turns. -/
def collected (replies : Replies World (List UInt8)) (turn : Nat) : List UInt8 :=
  (List.range turn).flatMap (fun earlier => (replies.values earlier).toOption.getD [])

/-- How the loop of `read` ends in a turn, or that it goes on. -/
def readEnds (session : FuseSession) (offset : UInt64) (size : Nat)
    (replies : Replies World (List UInt8)) (turn : Nat) :
    Option (World × Except IoFault (List UInt8)) :=
  if size ≤ turn * session.effectiveMaxIo then
    some (replies.worlds turn, .ok (collected replies turn))
  else
    match replies.values turn with
    | .error reason => some (replies.worlds (turn + 1), .error (.failed reason))
    | .ok chunk =>
        if 2 ^ 64 ≤ offset.toNat + asked session size turn + chunk.length then
          some (replies.worlds (turn + 1), .error .overflow)
        else if chunk.length < chunkSize session size turn then
          some (replies.worlds (turn + 1), .ok (collected replies turn ++ chunk))
        else
          none

def readStates (session : FuseSession) (offset : UInt64) (size : Nat)
    (replies : Replies World (List UInt8)) (turn : Nat) : ReadState World where
  world := replies.worlds turn
  currentOffset := UInt64.ofNat (offset.toNat + asked session size turn)
  remaining := size - turn * session.effectiveMaxIo
  result := collected replies turn

/-- The host gives these replies to the turns that are reached, none longer than asked for. -/
structure GivesRead (device : Device World) (nodeid fh : UInt64) (session : FuseSession)
    (offset : UInt64) (size : Nat) (replies : Replies World (List UInt8)) : Prop where
  single : ∀ turn, turn * session.effectiveMaxIo < size →
    (∀ earlier < turn, readEnds session offset size replies earlier = none) →
    readSingle device nodeid fh (replies.worlds turn)
      (UInt64.ofNat (offset.toNat + asked session size turn))
      (UInt32.ofNat (chunkSize session size turn)) =
      (replies.worlds (turn + 1), replies.values turn)
  room : ∀ turn chunk, turn * session.effectiveMaxIo < size → replies.values turn = .ok chunk →
    chunk.length ≤ chunkSize session size turn

variable {offset : UInt64} {size turn : Nat} {replies : Replies World (List UInt8)}

/-- The loop goes on after a full chunk that keeps the offset in its type. -/
theorem readEnds_eq_none :
    readEnds session offset size replies turn = none ↔ turn * session.effectiveMaxIo < size ∧
      ∃ chunk, replies.values turn = .ok chunk ∧
        offset.toNat + asked session size turn + chunk.length < 2 ^ 64 ∧
        chunkSize session size turn ≤ chunk.length := by
  unfold readEnds
  by_cases more : size ≤ turn * session.effectiveMaxIo
  · simp [if_pos more, Nat.not_lt.mpr more]
  · rw [if_neg more]
    cases replies.values turn with
    | error reason => simp
    | ok chunk =>
        simp only [Except.ok.injEq, exists_eq_left']
        constructor
        · intro none
          split at none
          · cases none
          · split at none
            · cases none
            · omega
        · rintro ⟨_, fits, full⟩
          rw [if_neg (by omega), if_neg (by omega)]

/-- With a limit, no more turns are taken than there are bytes to ask for. -/
theorem readEnds_last (positive : 0 < session.effectiveMaxIo) :
    readEnds session offset size replies size ≠ none := by
  rw [readEnds, if_pos (Nat.le_mul_of_pos_right size positive)]
  exact Option.some_ne_none _

/-- A turn that goes on got all it asked for. -/
theorem GivesRead.full (gives : GivesRead device nodeid fh session offset size replies)
    (going : readEnds session offset size replies turn = none) :
    ∃ chunk, replies.values turn = .ok chunk ∧ chunk.length = chunkSize session size turn := by
  obtain ⟨more, chunk, value, _, full⟩ := readEnds_eq_none.mp going
  have room := gives.room turn chunk more value
  exact ⟨chunk, value, by omega⟩

theorem asked_fits
    (going : ∀ earlier < turn, readEnds session offset size replies earlier = none) :
    offset.toNat + asked session size turn < 2 ^ 64 := by
  cases turn with
  | zero =>
      have small := offset.toNat_lt
      simpa [asked] using small
  | succ turn =>
      obtain ⟨_, chunk, _, fits, full⟩ := readEnds_eq_none.mp (going turn (by omega))
      rw [asked_succ]
      omega

theorem collected_succ {chunk : List UInt8} (value : replies.values turn = .ok chunk) :
    collected replies (turn + 1) = collected replies turn ++ chunk := by
  rw [collected, List.range_succ, List.flatMap_append, List.flatMap_singleton, value]
  rfl

/-- After full chunks, as much has come as has been asked for. -/
theorem GivesRead.length_collected (gives : GivesRead device nodeid fh session offset size replies)
    (going : ∀ earlier < turn, readEnds session offset size replies earlier = none) :
    (collected replies turn).length = asked session size turn := by
  induction turn with
  | zero => simp [collected, asked]
  | succ turn ih =>
      obtain ⟨chunk, value, full⟩ := gives.full (going turn (by omega))
      rw [collected_succ value, List.length_append, full, asked_succ,
        ih (fun earlier less => going earlier (by omega))]

theorem readTurn_numbered (gives : GivesRead device nodeid fh session offset size replies) :
    TailCalls.Numbered (readTurn device nodeid fh session)
      (readStates session offset size replies) (readEnds session offset size replies) := by
  intro turn going
  have small := asked_fits going
  by_cases done : size ≤ turn * session.effectiveMaxIo
  · have nothing : (readStates session offset size replies turn).remaining = 0 := by
      simp only [readStates]
      omega
    rw [readTurn, if_pos nothing, readEnds, if_pos done]
    rfl
  · have something : (readStates session offset size replies turn).remaining ≠ 0 := by
      simp only [readStates]
      omega
    have single := gives.single turn (by omega) going
    have asks : min (size - turn * session.effectiveMaxIo) session.effectiveMaxIo =
      chunkSize session size turn := rfl
    rw [readTurn, if_neg something, readEnds, if_neg done]
    simp only [readStates, asks, single]
    cases value : replies.values turn with
    | error reason => rfl
    | ok chunk =>
        have room := gives.room turn chunk (by omega) value
        have within : chunkSize session size turn ≤ size - turn * session.effectiveMaxIo :=
          Nat.min_le_left _ _
        have limit := chunkSize_le session size turn
        unfold MAX_IO_SIZE at limit
        have words : (UInt64.ofNat (offset.toNat + asked session size turn)).toNat +
            (UInt64.ofNat chunk.length).toNat =
            offset.toNat + asked session size turn + chunk.length := by
          rw [UInt64.toNat_ofNat', UInt64.toNat_ofNat', Nat.mod_eq_of_lt small,
            Nat.mod_eq_of_lt (by omega)]
        dsimp only
        by_cases wraps : 2 ^ 64 ≤ offset.toNat + asked session size turn + chunk.length
        · rw [checkedAdd, words, if_neg (by omega), if_pos wraps]
          rfl
        · rw [checkedAdd, words, if_pos (by omega), if_neg wraps]
          dsimp only
          rw [if_neg (by omega), chunk_word]
          by_cases short : chunk.length < chunkSize session size turn
          · rw [if_pos short, if_pos short]
            rfl
          · have full : chunk.length = chunkSize session size turn := by omega
            have next : UInt64.ofNat (offset.toNat + asked session size turn) +
                UInt64.ofNat chunk.length =
                UInt64.ofNat (offset.toNat + asked session size (turn + 1)) := by
              rw [← UInt64.ofNat_add, asked_succ, full, Nat.add_assoc]
            have left : size - turn * session.effectiveMaxIo - chunk.length =
                size - (turn + 1) * session.effectiveMaxIo := by
              rw [full, chunkSize, Nat.succ_mul]
              omega
            rw [if_neg short, if_neg short, collected_succ value, next, left]
            rfl

end ReadTurns

section WriteTurns

variable {World : Type} {device : Device World} {nodeid fh : UInt64} {session : FuseSession}

/-- The counts that the host reported in the first turns. -/
def reported (replies : Replies World UInt32) (turn : Nat) : Nat :=
  ((List.range turn).map (fun earlier =>
    ((replies.values earlier).toOption.getD 0).toNat)).sum

/-- How the loop of `write` ends in a turn, or that it goes on. -/
def writeEnds (session : FuseSession) (offset : UInt64) (data : List UInt8)
    (replies : Replies World UInt32) (turn : Nat) : Option (World × Except IoFault UInt32) :=
  if data.length ≤ turn * session.effectiveMaxIo then
    some (replies.worlds turn, .ok (UInt32.ofNat (reported replies turn)))
  else
    match replies.values turn with
    | .error reason => some (replies.worlds (turn + 1), .error (.failed reason))
    | .ok written =>
        if 2 ^ 32 ≤ reported replies turn + written.toNat then
          some (replies.worlds (turn + 1), .error .overflow)
        else if 2 ^ 64 ≤ offset.toNat + reported replies turn + written.toNat then
          some (replies.worlds (turn + 1), .error .overflow)
        else if written.toNat < chunkSize session data.length turn then
          some (replies.worlds (turn + 1),
            .ok (UInt32.ofNat (reported replies turn + written.toNat)))
        else
          none

def writeStates (session : FuseSession) (offset : UInt64) (data : List UInt8)
    (replies : Replies World UInt32) (turn : Nat) : WriteState World where
  world := replies.worlds turn
  totalWritten := UInt32.ofNat (reported replies turn)
  currentOffset := UInt64.ofNat (offset.toNat + reported replies turn)
  remaining := data.drop (turn * session.effectiveMaxIo)

/-- The host gives these replies to the turns that are reached. -/
def GivesWrite (device : Device World) (nodeid fh : UInt64) (session : FuseSession)
    (offset : UInt64) (data : List UInt8) (replies : Replies World UInt32) : Prop :=
  ∀ turn, turn * session.effectiveMaxIo < data.length →
    (∀ earlier < turn, writeEnds session offset data replies earlier = none) →
    writeSingle device nodeid fh (replies.worlds turn)
      (UInt64.ofNat (offset.toNat + reported replies turn))
      ((data.drop (turn * session.effectiveMaxIo)).take (chunkSize session data.length turn)) =
      (replies.worlds (turn + 1), replies.values turn)

variable {offset : UInt64} {data : List UInt8} {turn : Nat} {replies : Replies World UInt32}

/-- The loop goes on after a chunk that is not short and keeps the counters in their types. -/
theorem writeEnds_eq_none :
    writeEnds session offset data replies turn = none ↔
      turn * session.effectiveMaxIo < data.length ∧ ∃ written, replies.values turn = .ok written ∧
        reported replies turn + written.toNat < 2 ^ 32 ∧
        offset.toNat + reported replies turn + written.toNat < 2 ^ 64 ∧
        chunkSize session data.length turn ≤ written.toNat := by
  unfold writeEnds
  by_cases more : data.length ≤ turn * session.effectiveMaxIo
  · simp [if_pos more, Nat.not_lt.mpr more]
  · rw [if_neg more]
    cases replies.values turn with
    | error reason => simp
    | ok written =>
        simp only [Except.ok.injEq, exists_eq_left']
        constructor
        · intro none
          split at none
          · cases none
          · split at none
            · cases none
            · split at none
              · cases none
              · omega
        · rintro ⟨_, fits, inside, full⟩
          rw [if_neg (by omega), if_neg (by omega), if_neg (by omega)]

theorem writeEnds_last (positive : 0 < session.effectiveMaxIo) :
    writeEnds session offset data replies data.length ≠ none := by
  rw [writeEnds, if_pos (Nat.le_mul_of_pos_right data.length positive)]
  exact Option.some_ne_none _

theorem reported_succ {written : UInt32} (value : replies.values turn = .ok written) :
    reported replies (turn + 1) = reported replies turn + written.toNat := by
  rw [reported, List.range_succ, List.map_append, List.sum_append, List.map_singleton,
    List.sum_singleton, value]
  rfl

theorem reported_fits
    (going : ∀ earlier < turn, writeEnds session offset data replies earlier = none) :
    reported replies turn < 2 ^ 32 ∧ offset.toNat + reported replies turn < 2 ^ 64 := by
  cases turn with
  | zero =>
      have small := offset.toNat_lt
      refine ⟨by simp [reported], ?_⟩
      simpa [reported] using small
  | succ turn =>
      obtain ⟨_, written, value, fits, inside, _⟩ := writeEnds_eq_none.mp (going turn (by omega))
      rw [reported_succ value]
      omega

theorem writeTurn_numbered (gives : GivesWrite device nodeid fh session offset data replies) :
    TailCalls.Numbered (writeTurn device nodeid fh session)
      (writeStates session offset data replies) (writeEnds session offset data replies) := by
  intro turn going
  obtain ⟨small, inside⟩ := reported_fits going
  by_cases done : data.length ≤ turn * session.effectiveMaxIo
  · have nothing : (writeStates session offset data replies turn).remaining = [] :=
      List.drop_of_length_le done
    rw [writeTurn, if_pos nothing, writeEnds, if_pos done]
    rfl
  · have something : (writeStates session offset data replies turn).remaining ≠ [] := by
      rw [writeStates, Ne, List.drop_eq_nil_iff]
      exact done
    have single := gives turn (by omega) going
    have asks : min (data.drop (turn * session.effectiveMaxIo)).length session.effectiveMaxIo =
        chunkSize session data.length turn := by
      rw [List.length_drop]
      rfl
    rw [writeTurn, if_neg something, writeEnds, if_neg done]
    simp only [writeStates, asks, single]
    cases value : replies.values turn with
    | error reason => rfl
    | ok written =>
        have bound := written.toNat_lt
        have counts : (UInt32.ofNat (reported replies turn)).toNat + written.toNat =
            reported replies turn + written.toNat := by
          rw [UInt32.toNat_ofNat', Nat.mod_eq_of_lt small]
        have words : (UInt64.ofNat (offset.toNat + reported replies turn)).toNat +
            written.toUInt64.toNat = offset.toNat + reported replies turn + written.toNat := by
          rw [UInt64.toNat_ofNat', Nat.mod_eq_of_lt inside, UInt32.toNat_toUInt64]
        have total : UInt32.ofNat (reported replies turn) + written =
            UInt32.ofNat (reported replies turn + written.toNat) := by
          rw [UInt32.ofNat_add, UInt32.ofNat_toNat]
        dsimp only
        rw [counts, total]
        by_cases tooMany : 2 ^ 32 ≤ reported replies turn + written.toNat
        · rw [if_pos tooMany, if_pos tooMany]
          rfl
        · rw [if_neg tooMany, if_neg tooMany]
          by_cases wraps : 2 ^ 64 ≤ offset.toNat + reported replies turn + written.toNat
          · rw [checkedAdd, words, if_neg (by omega), if_pos wraps]
            rfl
          · rw [checkedAdd, words, if_pos (by omega), if_neg wraps]
            dsimp only
            by_cases short : written.toNat < chunkSize session data.length turn
            · rw [if_pos short, if_pos short]
              rfl
            · have next : UInt64.ofNat (offset.toNat + reported replies turn) + written.toUInt64 =
                  UInt64.ofNat (offset.toNat + reported replies (turn + 1)) := by
                rw [reported_succ value, ← Nat.add_assoc, UInt64.ofNat_add (_ + _),
                  ← UInt32.toNat_toUInt64, UInt64.ofNat_toNat]
              have left : (data.drop (turn * session.effectiveMaxIo)).drop
                  (chunkSize session data.length turn) =
                  data.drop ((turn + 1) * session.effectiveMaxIo) := by
                rw [List.drop_drop, chunkSize, Nat.succ_mul]
                rcases Nat.le_total (data.length - turn * session.effectiveMaxIo)
                  session.effectiveMaxIo with last | inner
                · rw [Nat.min_eq_left last, List.drop_of_length_le (by omega),
                    List.drop_of_length_le (by omega)]
                · rw [Nat.min_eq_right inner]
              rw [if_neg short, if_neg short, next, left, ← reported_succ value]
              rfl

end WriteTurns

end NixRedox.FuseIo
