import NixRedox.FuseSession
import NixRedox.VirtioFsListing

set_option autoImplicit false

/- Which replies of a host let `read` and `write` of `session.rs` return. -/
namespace NixRedox.FuseIo

section Scripted

/-- A host whose replies are given in advance. -/
def scripted (completions : Nat → List UInt8) : Device Nat :=
  fun turn _ => (turn + 1, completions turn)

/-- A call returns after some number of requests, without overflow and with a count that is not
above what was asked for. -/
def Within {World Value : Type} (count : Value → Nat) (limit : Nat)
    (call : Nat → Option (World × Except IoFault Value)) : Prop :=
  ∃ fuel world outcome, call fuel = some (world, outcome) ∧ outcome ≠ .error .overflow ∧
    ∀ value, outcome = .ok value → count value ≤ limit

/-- A buffer is not smaller than what is asked for. -/
theorem le_roundToP2Pages (size : Nat) : size ≤ roundToP2Pages size := by
  have pages := Nat.le_pow_clog Nat.one_lt_two ((size + PAGE_SIZE - 1) / PAGE_SIZE)
  unfold roundToP2Pages nextPowerOfTwo
  unfold PAGE_SIZE at pages ⊢
  omega

theorem request_fits {request : IoRequest} (small : request.payload ≤ MAX_IO_SIZE) :
    request.length ≤ reqCapacity ∧ request.replyLength ≤ respCapacity := by
  have sent := le_roundToP2Pages (inHeader + writeIn + MAX_IO_SIZE)
  have back := le_roundToP2Pages (outHeader + MAX_IO_SIZE)
  rw [← reqCapacity] at sent
  rw [← respCapacity] at back
  cases request <;>
    simp only [IoRequest.payload, MAX_IO_SIZE, IoRequest.length, IoRequest.replyLength, inHeader,
      readIn, writeIn, outHeader, META_RESPONSE] at small sent back ⊢ <;> omega

/-- A request of the session fits into the buffers, so it is exchanged. -/
theorem exchange_of_fits {World : Type} (device : Device World) (world : World)
    {request : IoRequest} (small : request.payload ≤ MAX_IO_SIZE) :
    FuseTransport.exchange device world request =
      ((device world request).1, completed request.replyLength (device world request).2) := by
  obtain ⟨sent, back⟩ := request_fits small
  rw [FuseTransport.exchange, if_neg (Nat.not_lt.mpr sent), if_neg (Nat.not_lt.mpr back)]

theorem length_acceptedBody {room : Nat} {written body : List UInt8}
    (accepted : acceptedBody (completed (outHeader + room) written) = .ok body) :
    body.length ≤ room := by
  unfold completed at accepted
  split at accepted
  · cases accepted
  · rename_i inside
    split at accepted
    · cases accepted
    · rename_i long
      have unfolded : acceptedBody (.ok written) =
          (parseResponseHeader written >>= fun _ => .ok (responseBody written)) := rfl
      rw [unfolded] at accepted
      cases parsed : parseResponseHeader written with
      | error reason =>
          rw [parsed] at accepted
          cases accepted
      | ok _ =>
          rw [parsed] at accepted
          have same : responseBody written = body := Except.ok.inj accepted
          rw [← same, responseBody]
          split
          · rw [List.length_drop]
            omega
          · exact Nat.zero_le room

/-- A header without an error, as every reply to a request that succeeds has. -/
def Succeeds (header : List UInt8) : Prop := header.length = outHeader ∧ 0 ≤ errorField header

theorem errorField_append {header : List UInt8} (whole : header.length = outHeader)
    (body : List UInt8) : errorField (header ++ body) = errorField header := by
  unfold outHeader at whole
  unfold errorField VirtioFs.numberAt
  rw [List.drop_append_of_le_length (by omega),
    List.take_append_of_le_length (by rw [List.length_drop]; omega)]

theorem acceptedBody_of_succeeds {header body : List UInt8} {room : Nat}
    (succeeds : Succeeds header) (inside : outHeader + body.length ≤ room) :
    acceptedBody (completed room (header ++ body)) = .ok body := by
  obtain ⟨whole, noError⟩ := succeeds
  have long : (header ++ body).length = outHeader + body.length := by
    rw [List.length_append, whole]
  have parsed : parseResponseHeader (header ++ body) = .ok () := by
    rw [parseResponseHeader, if_neg (by omega), errorField_append whole,
      if_neg (Int.not_lt.mpr noError)]
  have rest : responseBody (header ++ body) = body := by
    rw [responseBody]
    split
    · exact List.drop_left' whole
    · exact (List.eq_nil_of_length_eq_zero (by omega)).symm
  rw [completed, if_neg (by omega), if_neg (by omega)]
  change (parseResponseHeader (header ++ body) >>= fun _ => .ok (responseBody (header ++ body))) = _
  rw [parsed, rest]
  rfl

/-- Of a loop whose states have numbers, what counts is the first turn that ends it. -/
theorem within_numbered {State World Value : Type} {count : Value → Nat} {limit : Nat}
    {call : State → State ⊕ (World × Except IoFault Value)} {states : Nat → State}
    {ends : Nat → Option (World × Except IoFault Value)}
    (numbered : TailCalls.Numbered call states ends) :
    Within count limit (fun fuel => TailCalls.run call fuel (states 0)) ↔
      ∃ turn world outcome, (∀ earlier < turn, ends earlier = none) ∧
        ends turn = some (world, outcome) ∧ outcome ≠ .error .overflow ∧
        ∀ value, outcome = .ok value → count value ≤ limit := by
  constructor
  · rintro ⟨fuel, world, outcome, ended, behaves⟩
    obtain ⟨turn, going, last⟩ := numbered.returns_iff.mp ⟨fuel, ended⟩
    exact ⟨turn, world, outcome, going, last, behaves⟩
  · rintro ⟨turn, world, outcome, going, last, behaves⟩
    obtain ⟨fuel, ended⟩ := numbered.returns_iff.mpr ⟨turn, going, last⟩
    exact ⟨fuel, world, outcome, ended, behaves⟩

end Scripted

section Read

/-- What `read_single` makes of the reply in a turn. -/
def readReply (session : FuseSession) (size : Nat) (completions : Nat → List UInt8) (turn : Nat) :
    Except VirtioFs.FuseTransportError (List UInt8) :=
  acceptedBody (completed (outHeader + chunkSize session size turn) (completions turn))

def scriptedReads (session : FuseSession) (size : Nat) (completions : Nat → List UInt8) :
    Replies Nat (List UInt8) where
  worlds := id
  values := readReply session size completions

/-- So far every chunk was full, and more is wanted. -/
def ReadReaches (session : FuseSession) (size : Nat) (completions : Nat → List UInt8)
    (turn : Nat) : Prop :=
  turn * session.effectiveMaxIo < size ∧ ∀ earlier < turn, ∃ chunk,
    readReply session size completions earlier = .ok chunk ∧
      chunk.length = chunkSize session size earlier

/-- The replies under which `read` behaves: one request is enough, or the limit is not zero or some
reply is refused, and no chunk takes the offset out of its type. -/
def ReadBehaves (session : FuseSession) (offset : UInt64) (size : Nat)
    (completions : Nat → List UInt8) : Prop :=
  size ≤ session.effectiveMaxIo ∨
    (0 < session.effectiveMaxIo ∨
      ∃ turn reason, readReply session size completions turn = .error reason) ∧
    ∀ turn chunk, ReadReaches session size completions turn →
      readReply session size completions turn = .ok chunk →
      offset.toNat + asked session size turn + chunk.length < 2 ^ 64

variable {session : FuseSession} {completions : Nat → List UInt8} {nodeid fh offset : UInt64}
  {size turn : Nat}

theorem readReply_room {chunk : List UInt8}
    (value : readReply session size completions turn = .ok chunk) :
    chunk.length ≤ chunkSize session size turn :=
  length_acceptedBody value

theorem scripted_readSingle (small : chunkSize session size turn ≤ MAX_IO_SIZE) :
    readSingle (scripted completions) nodeid fh turn offset
      (UInt32.ofNat (chunkSize session size turn)) =
      (turn + 1, readReply session size completions turn) := by
  have fits : (IoRequest.read nodeid fh offset
      (UInt32.ofNat (chunkSize session size turn))).payload ≤ MAX_IO_SIZE := by
    rw [IoRequest.payload, chunk_word]
    exact small
  rw [readSingle, exchange_of_fits _ _ fits, IoRequest.replyLength, chunk_word]
  rfl

theorem scripted_givesRead :
    GivesRead (scripted completions) nodeid fh session offset size
      (scriptedReads session size completions) where
  single := fun turn _ _ => scripted_readSingle (chunkSize_le session size turn)
  room := fun _ _ _ value => readReply_room value

/-- The turns that are reached are those before which no chunk was short, and none overflowed. -/
theorem readReaches_of_going (more : turn * session.effectiveMaxIo < size)
    (going : ∀ earlier < turn,
      readEnds session offset size (scriptedReads session size completions) earlier = none) :
    ReadReaches session size completions turn := by
  refine ⟨more, ?_⟩
  intro earlier less
  obtain ⟨chunk, value, full⟩ :=
    (@scripted_givesRead _ completions 0 0 offset _).full (going earlier less)
  exact ⟨chunk, value, full⟩

theorem readStates_zero :
    readStates session offset size (scriptedReads session size completions) 0 =
      ⟨0, offset, size, []⟩ := by
  simp [readStates, asked, collected, scriptedReads]

/-- A turn that is not reached, or whose chunk does not overflow, does not end in an overflow. -/
theorem readEnds_ne_overflow {world : Nat}
    (behaves : ∀ chunk, turn * session.effectiveMaxIo < size →
      readReply session size completions turn = .ok chunk →
      offset.toNat + asked session size turn + chunk.length < 2 ^ 64) :
    readEnds session offset size (scriptedReads session size completions) turn ≠
      some (world, .error .overflow) := by
  intro ended
  unfold readEnds at ended
  split at ended
  · cases ended
  · rename_i more
    split at ended
    · cases ended
    · rename_i chunk value
      have small := behaves chunk (by omega) value
      rw [if_neg (by omega)] at ended
      split at ended <;> cases ended

theorem readEnds_overflow {chunk : List UInt8} (more : turn * session.effectiveMaxIo < size)
    (value : readReply session size completions turn = .ok chunk)
    (wraps : 2 ^ 64 ≤ offset.toNat + asked session size turn + chunk.length) :
    readEnds session offset size (scriptedReads session size completions) turn =
      some (turn + 1, .error .overflow) := by
  rw [readEnds, if_neg (Nat.not_le.mpr more)]
  simp only [scriptedReads, value, if_pos wraps, id]

/-- No call gives more bytes than were asked for. -/
theorem readEnds_length {world : Nat} {value : List UInt8}
    (going : ∀ earlier < turn,
      readEnds session offset size (scriptedReads session size completions) earlier = none)
    (ended : readEnds session offset size (scriptedReads session size completions) turn =
      some (world, .ok value)) : value.length ≤ size := by
  have gathered := (@scripted_givesRead _ completions 0 0 offset _).length_collected going
  have limit : asked session size turn ≤ size := Nat.min_le_right _ _
  unfold readEnds at ended
  split at ended
  · cases ended
    omega
  · split at ended
    · cases ended
    · rename_i chunk reply
      have room := readReply_room reply
      have next : asked session size (turn + 1) ≤ size := Nat.min_le_right _ _
      rw [asked_succ] at next
      split at ended
      · cases ended
      · split at ended
        · cases ended
          rw [List.length_append]
          omega
        · cases ended

/-- With a limit the loop runs out of bytes to ask for; without one only a refusal ends it. -/
theorem readEnds_some (more : session.effectiveMaxIo < size) :
    (∃ turn, readEnds session offset size (scriptedReads session size completions) turn ≠ none) ↔
      0 < session.effectiveMaxIo ∨
        (∃ turn reason, readReply session size completions turn = .error reason) := by
  constructor
  · rintro ⟨turn, ended⟩
    rcases Nat.eq_zero_or_pos session.effectiveMaxIo with noLimit | positive
    · refine .inr ⟨turn, ?_⟩
      cases value : readReply session size completions turn with
      | error reason => exact ⟨reason, rfl⟩
      | ok chunk =>
          have room := readReply_room value
          have small := offset.toNat_lt
          have nothing : asked session size turn = 0 ∧ chunkSize session size turn = 0 := by
            rw [asked, chunkSize, noLimit, Nat.mul_zero]
            exact ⟨Nat.zero_min _, Nat.min_zero _⟩
          refine absurd (readEnds_eq_none.mpr ⟨?_, chunk, value, ?_, ?_⟩) ended
          · rw [noLimit, Nat.mul_zero]
            omega
          · omega
          · omega
    · exact .inl positive
  · rintro (positive | ⟨turn, reason, refused⟩)
    · exact ⟨size, readEnds_last positive⟩
    · refine ⟨turn, ?_⟩
      intro going
      obtain ⟨_, chunk, value, _⟩ := readEnds_eq_none.mp going
      cases refused.symm.trans value

theorem read_of_le {size : UInt32} (fits : size.toNat ≤ session.effectiveMaxIo) (fuel : Nat) :
    read (scripted completions) nodeid fh session fuel 0 offset size =
      some (1, (readReply session size.toNat completions 0).mapError .failed) := by
  have whole : chunkSize session size.toNat 0 = size.toNat := by
    rw [chunkSize, Nat.zero_mul, Nat.sub_zero, Nat.min_eq_left fits]
  have single := @scripted_readSingle session completions nodeid fh offset size.toNat 0
    (chunkSize_le session size.toNat 0)
  rw [whole, UInt32.ofNat_toNat] at single
  rw [read, if_pos fits, single]

/-- `read` behaves under exactly these replies. -/
theorem read_within_iff (size : UInt32) :
    Within List.length size.toNat
        (fun fuel => read (scripted completions) nodeid fh session fuel 0 offset size) ↔
      ReadBehaves session offset size.toNat completions := by
  by_cases fits : size.toNat ≤ session.effectiveMaxIo
  · refine iff_of_true ⟨0, 1, _, read_of_le fits 0, ?_, ?_⟩ (.inl fits)
    · cases readReply session size.toNat completions 0 <;> simp [Except.mapError]
    · intro value given
      cases reply : readReply session size.toNat completions 0 with
      | error reason =>
          rw [reply] at given
          cases given
      | ok chunk =>
          rw [reply] at given
          cases given
          exact (readReply_room reply).trans (by simp [chunkSize])
  · have loop : (fun fuel => read (scripted completions) nodeid fh session fuel 0 offset size) =
        fun fuel => TailCalls.run (readTurn (scripted completions) nodeid fh session) fuel
          (readStates session offset size.toNat
            (scriptedReads session size.toNat completions) 0) := by
      funext fuel
      rw [readStates_zero, read, if_neg fits]
    rw [loop, within_numbered (readTurn_numbered scripted_givesRead)]
    constructor
    · rintro ⟨turn, world, outcome, going, ended, proper, _⟩
      refine .inr ⟨(readEnds_some (by omega)).mp ⟨turn, ended ▸ Option.some_ne_none _⟩, ?_⟩
      intro reached chunk reaches value
      by_contra wraps
      rcases Nat.lt_trichotomy reached turn with before | rfl | after
      · obtain ⟨_, own, reply, inside, _⟩ := readEnds_eq_none.mp (going reached before)
        cases reply.symm.trans value
        exact wraps inside
      · rw [readEnds_overflow reaches.1 value (by omega)] at ended
        cases ended
        exact proper rfl
      · -- the turn that ended the loop had a full chunk, so it can only have overflowed
        have more : turn * session.effectiveMaxIo < size.toNat :=
          (Nat.mul_le_mul_right _ after.le).trans_lt reaches.1
        obtain ⟨own, reply, full⟩ := reaches.2 turn after
        by_cases inside : offset.toNat + asked session size.toNat turn + own.length < 2 ^ 64
        · rw [readEnds_eq_none.mpr ⟨more, own, reply, inside, full.ge⟩] at ended
          cases ended
        · rw [readEnds_overflow more reply (by omega)] at ended
          cases ended
          exact proper rfl
    · rintro (small | ⟨progress, behaves⟩)
      · exact absurd small fits
      · obtain ⟨turn, ⟨world, outcome⟩, going, ended⟩ :=
          TailCalls.first_end ((@readEnds_some _ _ offset _ (by omega)).mpr progress)
        refine ⟨turn, world, outcome, going, ended, ?_, ?_⟩
        · rintro rfl
          refine readEnds_ne_overflow ?_ ended
          intro chunk more value
          exact behaves turn chunk (readReaches_of_going more going) value
        · rintro value rfl
          exact readEnds_length going ended

end Read

section Write

/-- What `write_single` makes of the reply in a turn. -/
def writeReply (completions : Nat → List UInt8) (turn : Nat) :
    Except VirtioFs.FuseTransportError UInt32 :=
  acceptedBody (completed META_RESPONSE (completions turn)) >>= writtenCount

def scriptedWrites (completions : Nat → List UInt8) : Replies Nat UInt32 where
  worlds := id
  values := writeReply completions

/-- So far no write was short, and there is more to write. -/
def WriteReaches (session : FuseSession) (length : Nat) (completions : Nat → List UInt8)
    (turn : Nat) : Prop :=
  turn * session.effectiveMaxIo < length ∧ ∀ earlier < turn, ∃ written,
    writeReply completions earlier = .ok written ∧
      chunkSize session length earlier ≤ written.toNat

/-- The replies under which `write` behaves. A single request has to report no more than it was
given. Of several, the counts have to stay in their types, and together be at most the length where
the loop ends. -/
def WriteBehaves (session : FuseSession) (offset : UInt64) (length : Nat)
    (completions : Nat → List UInt8) : Prop :=
  (length ≤ session.effectiveMaxIo ∧
    ∀ written, writeReply completions 0 = .ok written → written.toNat ≤ length) ∨
  session.effectiveMaxIo < length ∧
    (0 < session.effectiveMaxIo ∨ ∃ turn reason, writeReply completions turn = .error reason) ∧
    ∀ turn written, WriteReaches session length completions turn →
      writeReply completions turn = .ok written →
      reported (scriptedWrites completions) turn + written.toNat < 2 ^ 32 ∧
      offset.toNat + reported (scriptedWrites completions) turn + written.toNat < 2 ^ 64 ∧
      (written.toNat < chunkSize session length turn ∨
          length ≤ (turn + 1) * session.effectiveMaxIo →
        reported (scriptedWrites completions) turn + written.toNat ≤ length)

variable {session : FuseSession} {completions : Nat → List UInt8} {nodeid fh offset : UInt64}
  {data : List UInt8} {turn : Nat}

theorem scripted_writeSingle (small : data.length ≤ MAX_IO_SIZE) :
    writeSingle (scripted completions) nodeid fh turn offset data =
      (turn + 1, writeReply completions turn) := by
  have fits : (IoRequest.write nodeid fh offset (UInt32.ofNat data.length) data).payload ≤
      MAX_IO_SIZE := small
  rw [writeSingle, exchange_of_fits _ _ fits]
  rfl

theorem scripted_givesWrite :
    GivesWrite (scripted completions) nodeid fh session offset data
      (scriptedWrites completions) := by
  intro turn _ _
  refine scripted_writeSingle ((List.length_take_le _ _).trans ?_)
  exact chunkSize_le session data.length turn

theorem writeStates_zero :
    writeStates session offset data (scriptedWrites completions) 0 = ⟨0, 0, offset, data⟩ := by
  simp [writeStates, reported, scriptedWrites]

theorem writeReaches_of_going (more : turn * session.effectiveMaxIo < data.length)
    (going : ∀ earlier < turn,
      writeEnds session offset data (scriptedWrites completions) earlier = none) :
    WriteReaches session data.length completions turn := by
  refine ⟨more, ?_⟩
  intro earlier less
  obtain ⟨_, written, value, _, _, full⟩ := writeEnds_eq_none.mp (going earlier less)
  exact ⟨written, value, full⟩

/-- A turn that is accepted overflows, ends with a short chunk, or goes on. -/
theorem writeEnds_ok {written : UInt32} (more : turn * session.effectiveMaxIo < data.length)
    (value : writeReply completions turn = .ok written) :
    writeEnds session offset data (scriptedWrites completions) turn =
      if 2 ^ 32 ≤ reported (scriptedWrites completions) turn + written.toNat then
        some (turn + 1, .error .overflow)
      else if 2 ^ 64 ≤
          offset.toNat + reported (scriptedWrites completions) turn + written.toNat then
        some (turn + 1, .error .overflow)
      else if written.toNat < chunkSize session data.length turn then
        some (turn + 1,
          .ok (UInt32.ofNat (reported (scriptedWrites completions) turn + written.toNat)))
      else
        none := by
  rw [writeEnds, if_neg (Nat.not_le.mpr more)]
  have own : (scriptedWrites completions).values turn = .ok written := value
  rw [own]
  rfl

/-- With a limit the loop runs out of data; without one only a refusal or an overflow ends it. -/
theorem writeEnds_some (progress : 0 < session.effectiveMaxIo ∨
    ∃ turn reason, writeReply completions turn = .error reason) :
    ∃ turn, writeEnds session offset data (scriptedWrites completions) turn ≠ none := by
  rcases progress with positive | ⟨turn, reason, refused⟩
  · exact ⟨data.length, writeEnds_last positive⟩
  · refine ⟨turn, ?_⟩
    intro going
    obtain ⟨_, written, value, _⟩ := writeEnds_eq_none.mp going
    cases refused.symm.trans value

theorem count_word {count : Nat} (small : count < 2 ^ 32) : (UInt32.ofNat count).toNat = count := by
  rw [UInt32.toNat_ofNat', Nat.mod_eq_of_lt small]

/-- Where the loop has ended well, the turns that can be reached behave. -/
theorem writeBehaves_of_ends {ended world : Nat} {outcome : Except IoFault UInt32}
    (going : ∀ earlier < ended,
      writeEnds session offset data (scriptedWrites completions) earlier = none)
    (last : writeEnds session offset data (scriptedWrites completions) ended =
      some (world, outcome))
    (proper : outcome ≠ .error .overflow)
    (few : ∀ value, outcome = .ok value → value.toNat ≤ data.length)
    {written : UInt32} (reaches : WriteReaches session data.length completions turn)
    (value : writeReply completions turn = .ok written) :
    reported (scriptedWrites completions) turn + written.toNat < 2 ^ 32 ∧
      offset.toNat + reported (scriptedWrites completions) turn + written.toNat < 2 ^ 64 ∧
      (written.toNat < chunkSize session data.length turn ∨
          data.length ≤ (turn + 1) * session.effectiveMaxIo →
        reported (scriptedWrites completions) turn + written.toNat ≤ data.length) := by
  rcases Nat.lt_trichotomy turn ended with before | rfl | after
  · obtain ⟨_, own, reply, fits, inside, full⟩ := writeEnds_eq_none.mp (going turn before)
    cases reply.symm.trans value
    refine ⟨fits, inside, ?_⟩
    rintro (short | finished)
    · omega
    · -- the next turn finds nothing left, so it is the one that ended the loop
      have next : turn + 1 = ended := by
        rcases Nat.lt_or_ge (turn + 1) ended with earlier | other
        · have more := (writeEnds_eq_none.mp (going (turn + 1) earlier)).1
          omega
        · omega
      rw [← next, writeEnds, if_pos finished, reported_succ reply] at last
      cases last
      have bound := few _ rfl
      rwa [count_word fits] at bound
  · rw [writeEnds_ok reaches.1 value] at last
    split at last
    · cases last
      exact absurd rfl proper
    · split at last
      · cases last
        exact absurd rfl proper
      · rename_i fits inside
        split at last
        · cases last
          have bound := few _ rfl
          rw [count_word (by omega)] at bound
          exact ⟨by omega, by omega, fun _ => bound⟩
        · cases last
  · obtain ⟨own, reply, full⟩ := reaches.2 ended after
    have more : ended * session.effectiveMaxIo < data.length :=
      (Nat.mul_le_mul_right _ after.le).trans_lt reaches.1
    rw [writeEnds_ok more reply] at last
    split at last
    · cases last
      exact absurd rfl proper
    · split at last
      · cases last
        exact absurd rfl proper
      · rw [if_neg (Nat.not_lt.mpr full)] at last
        cases last

/-- Where the turns that can be reached behave, so does the end of the loop. -/
theorem writeEnds_behaves {world : Nat} {outcome : Except IoFault UInt32}
    (more : session.effectiveMaxIo < data.length)
    (behaves : ∀ turn written, WriteReaches session data.length completions turn →
      writeReply completions turn = .ok written →
      reported (scriptedWrites completions) turn + written.toNat < 2 ^ 32 ∧
      offset.toNat + reported (scriptedWrites completions) turn + written.toNat < 2 ^ 64 ∧
      (written.toNat < chunkSize session data.length turn ∨
          data.length ≤ (turn + 1) * session.effectiveMaxIo →
        reported (scriptedWrites completions) turn + written.toNat ≤ data.length))
    (going : ∀ earlier < turn,
      writeEnds session offset data (scriptedWrites completions) earlier = none)
    (last : writeEnds session offset data (scriptedWrites completions) turn =
      some (world, outcome)) :
    outcome ≠ .error .overflow ∧ ∀ value, outcome = .ok value → value.toNat ≤ data.length := by
  rcases Nat.lt_or_ge (turn * session.effectiveMaxIo) data.length with left | finished
  · have reaches := writeReaches_of_going left going
    cases value : writeReply completions turn with
    | error reason =>
        have own : (scriptedWrites completions).values turn = .error reason := value
        rw [writeEnds, if_neg (Nat.not_le.mpr left), own] at last
        cases last
        simp
    | ok written =>
        obtain ⟨fits, inside, few⟩ := behaves turn written reaches value
        rw [writeEnds_ok left value, if_neg (by omega), if_neg (by omega)] at last
        split at last
        · rename_i short
          cases last
          refine ⟨by simp, ?_⟩
          rintro _ ⟨⟩
          rw [count_word fits]
          exact few (.inl short)
        · cases last
  · rw [writeEnds, if_pos finished] at last
    cases last
    refine ⟨by simp, ?_⟩
    rintro _ ⟨⟩
    cases turn with
    | zero => omega
    | succ turn =>
        have earlier : ∀ before < turn,
            writeEnds session offset data (scriptedWrites completions) before = none :=
          fun before less => going before (by omega)
        obtain ⟨left, written, value, fits, inside, _⟩ :=
          writeEnds_eq_none.mp (going turn (by omega))
        have few := (behaves turn written (writeReaches_of_going left earlier) value).2.2
        rw [reported_succ value, count_word fits]
        exact few (.inr finished)

/-- Without a limit only a refusal ends the loop well. -/
theorem writeProgress_of_ends {world : Nat} {outcome : Except IoFault UInt32}
    (more : session.effectiveMaxIo < data.length)
    (ended : writeEnds session offset data (scriptedWrites completions) turn =
      some (world, outcome))
    (proper : outcome ≠ .error .overflow) :
    0 < session.effectiveMaxIo ∨ ∃ turn reason, writeReply completions turn = .error reason := by
  rcases Nat.eq_zero_or_pos session.effectiveMaxIo with noLimit | positive
  · refine .inr ⟨turn, ?_⟩
    cases value : writeReply completions turn with
    | error reason => exact ⟨reason, rfl⟩
    | ok written =>
        have left : turn * session.effectiveMaxIo < data.length := by
          rw [noLimit, Nat.mul_zero]
          omega
        have nothing : chunkSize session data.length turn = 0 := by
          rw [chunkSize, noLimit]
          exact Nat.min_zero _
        rw [writeEnds_ok left value, nothing] at ended
        split at ended
        · cases ended
          exact absurd rfl proper
        · split at ended
          · cases ended
            exact absurd rfl proper
          · rw [if_neg (Nat.not_lt_zero _)] at ended
            cases ended
  · exact .inl positive

theorem write_of_le (fits : data.length ≤ session.effectiveMaxIo) (fuel : Nat) :
    write (scripted completions) nodeid fh session fuel 0 offset data =
      some (1, (writeReply completions 0).mapError .failed) := by
  rw [write, if_pos fits, scripted_writeSingle (fits.trans (effectiveMaxIo_le session))]

/-- `write` behaves under exactly these replies. -/
theorem write_within_iff (data : List UInt8) :
    Within UInt32.toNat data.length
        (fun fuel => write (scripted completions) nodeid fh session fuel 0 offset data) ↔
      WriteBehaves session offset data.length completions := by
  by_cases fits : data.length ≤ session.effectiveMaxIo
  · constructor
    · rintro ⟨fuel, world, outcome, ended, _, few⟩
      cases (write_of_le fits fuel).symm.trans ended
      refine .inl ⟨fits, ?_⟩
      intro written value
      exact few written (by rw [value, Except.mapError])
    · rintro (⟨_, few⟩ | ⟨more, _⟩)
      · refine ⟨0, 1, _, write_of_le fits 0, ?_, ?_⟩
        · cases writeReply completions 0 <;> simp [Except.mapError]
        · intro value given
          cases reply : writeReply completions 0 with
          | error reason =>
              rw [reply] at given
              cases given
          | ok written =>
              rw [reply] at given
              cases given
              exact few value reply
      · omega
  · have loop : (fun fuel => write (scripted completions) nodeid fh session fuel 0 offset data) =
        fun fuel => TailCalls.run (writeTurn (scripted completions) nodeid fh session) fuel
          (writeStates session offset data (scriptedWrites completions) 0) := by
      funext fuel
      rw [writeStates_zero, write, if_neg fits]
    rw [loop, within_numbered (writeTurn_numbered scripted_givesWrite)]
    constructor
    · rintro ⟨turn, world, outcome, going, ended, proper, few⟩
      refine .inr ⟨by omega, writeProgress_of_ends (by omega) ended proper, ?_⟩
      intro reached written reaches value
      exact writeBehaves_of_ends going ended proper few reaches value
    · rintro (⟨small, _⟩ | ⟨more, progress, behaves⟩)
      · exact absurd small fits
      · obtain ⟨turn, ⟨world, outcome⟩, going, ended⟩ :=
          TailCalls.first_end (@writeEnds_some session _ offset data progress)
        obtain ⟨proper, few⟩ := writeEnds_behaves more behaves going ended
        exact ⟨turn, world, outcome, going, ended, proper, few⟩

end Write

section Returns

/-- Whatever limit a host announces is accepted. -/
theorem init_accepts (maxWrite : UInt32) : ∃ handshake, init handshake = .ok ⟨maxWrite⟩ := by
  let back := List.replicate 40 (0 : UInt8)
  let body := List.replicate 20 0 ++ (Bytes.toLittleEndian 4 maxWrite.toNat ++ back)
  have size : body.length = initOut := by
    simp only [body, back, List.length_append, List.length_replicate,
      Bytes.length_toLittleEndian, initOut]
  refine ⟨List.replicate 16 0 ++ body, ?_⟩
  have accepted : acceptedBody (completed META_RESPONSE (List.replicate 16 0 ++ body)) =
      .ok body := by
    refine acceptedBody_of_succeeds ⟨rfl, by decide⟩ ?_
    rw [size]
    decide
  have announced : VirtioFs.numberAt body 20 4 = maxWrite.toNat :=
    VirtioFs.numberAt_field rfl maxWrite.toNat_lt
  rw [init, accepted]
  simp only [bind, Except.bind]
  rw [size, if_neg (Nat.lt_irrefl _), announced, UInt32.ofNat_toNat]

/-- Reading and writing return after finitely many requests, within what was asked for and without
overflow, exactly under these replies of the host. -/
theorem io_returns_iff (session : FuseSession) (completions : Nat → List UInt8)
    (nodeid fh offset : UInt64) (size : UInt32) (data : List UInt8) :
    (Within List.length size.toNat
        (fun fuel => read (scripted completions) nodeid fh session fuel 0 offset size) ↔
      ReadBehaves session offset size.toNat completions) ∧
    (Within UInt32.toNat data.length
        (fun fuel => write (scripted completions) nodeid fh session fuel 0 offset data) ↔
      WriteBehaves session offset data.length completions) :=
  ⟨read_within_iff size, write_within_iff data⟩

/-- A host that announces a limit of zero and answers every request keeps `read` busy for ever. -/
theorem zero_limit_loops :
    init (List.replicate 80 0) = .ok ⟨0⟩ ∧
      ¬ Within List.length (1 : UInt32).toNat
        (fun fuel => read (scripted (fun _ => List.replicate 16 0)) 1 1 ⟨0⟩ fuel 0 0 1) := by
  refine ⟨rfl, ?_⟩
  rw [read_within_iff]
  rintro (small | ⟨positive | ⟨turn, reason, refused⟩, _⟩)
  · exact absurd small (by decide)
  · exact absurd positive (by decide)
  · have nothing : chunkSize ⟨0⟩ (1 : UInt32).toNat turn = 0 := Nat.min_zero _
    rw [readReply, nothing] at refused
    cases refused

end Returns

end NixRedox.FuseIo
