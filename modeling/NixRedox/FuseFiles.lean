import NixRedox.FileRanges
import NixRedox.FuseReplies

set_option autoImplicit false

/- A file of the share that is read and written in chunks, against the same done at once. -/
namespace NixRedox.FuseIo

open FileRanges

section Share

/-- A file whose size is a `u64`. -/
@[ext] structure SharedFile where
  bytes : List UInt8
  small : bytes.length < 2 ^ 64

/-- What a host keeps of data to be stored: no more than it takes, and than a file can hold. -/
def kept (limit : Nat) (offset : UInt64) (data : List UInt8) : List UInt8 :=
  data.take (min limit (2 ^ 64 - 1 - offset.toNat))

theorem length_overwrite_kept (file : SharedFile) (limit : Nat) (offset : UInt64)
    (data : List UInt8) :
    (overwrite file.bytes offset.toNat (kept limit offset data)).length < 2 ^ 64 := by
  have start := offset.toNat_lt
  have old := file.small
  have size : (kept limit offset data).length ≤ 2 ^ 64 - 1 - offset.toNat :=
    (List.length_take_le _ _).trans (Nat.min_le_right _ _)
  have all := length_overwrite_le file.bytes offset.toNat (kept limit offset data)
  omega

def SharedFile.store (file : SharedFile) (limit : Nat) (offset : UInt64) (data : List UInt8) :
    SharedFile :=
  ⟨overwrite file.bytes offset.toNat (kept limit offset data),
    length_overwrite_kept file limit offset data⟩

/-- The host's side: a file, and the requests that were served with the bytes each moved. -/
structure Share where
  file : SharedFile
  served : List (IoRequest × Nat)

/-- A host that answers without errors. Of a write it takes as much as it likes. -/
structure FileServer where
  header : Share → IoRequest → List UInt8
  succeeds : ∀ share request, Succeeds (header share request)
  accepts : Nat → Nat

def FileServer.device (server : FileServer) : Device Share :=
  fun share request =>
    match request with
    | .read _ _ offset size =>
        let found := range share.file.bytes offset.toNat size.toNat
        ({ share with served := share.served ++ [(request, found.length)] },
          server.header share request ++ found)
    | .write _ _ offset _ data =>
        let limit := server.accepts share.served.length
        let count := (kept limit offset data).length
        ({ file := share.file.store limit offset data
           served := share.served ++ [(request, count)] },
          server.header share request ++
            (Bytes.toLittleEndian 4 count ++ Bytes.toLittleEndian 4 0))

/-- Some write was short. -/
def Share.ShortWrite (share : Share) : Prop :=
  ∃ request count, (request, count) ∈ share.served ∧ count < request.payload

/-- No request had more bytes than were negotiated, or than the buffers have. -/
def Share.WithinLimits (share : Share) (session : FuseSession) : Prop :=
  ∀ request count, (request, count) ∈ share.served →
    request.payload ≤ min session.maxWrite.toNat MAX_IO_SIZE ∧
      request.length ≤ reqCapacity ∧ request.replyLength ≤ respCapacity

variable {session : FuseSession} {server : FileServer} {file : SharedFile} {share : Share}
  {nodeid fh offset : UInt64}

theorem kept_of_fits {size : Nat} {data : List UInt8} (fits : offset.toNat + size < 2 ^ 64) :
    kept size offset data = data.take size := by
  rw [kept, Nat.min_eq_left (by omega)]

/-- Data that is stored behind data before it is stored with it. -/
theorem SharedFile.store_store {first : Nat} {data : List UInt8} (limit size : Nat)
    (inside : first ≤ data.length) (fits : offset.toNat + first < 2 ^ 64) :
    (file.store first offset data).store limit (UInt64.ofNat (offset.toNat + first))
        ((data.drop first).take size) =
      file.store (first + (kept limit (UInt64.ofNat (offset.toNat + first))
        ((data.drop first).take size)).length) offset data := by
  have word : (UInt64.ofNat (offset.toNat + first)).toNat = offset.toNat + first := by
    rw [UInt64.toNat_ofNat', Nat.mod_eq_of_lt fits]
  let back := kept limit (UInt64.ofNat (offset.toNat + first)) ((data.drop first).take size)
  have front : (data.take first).length = first := by
    rw [List.length_take, Nat.min_eq_left inside]
  have part : back <+: data.drop first := (List.take_prefix _ _).trans (List.take_prefix _ _)
  have small : back.length ≤ 2 ^ 64 - 1 - (offset.toNat + first) := by
    rw [← word]
    exact (List.length_take_le _ _).trans (Nat.min_le_right _ _)
  have together : data.take first ++ back = data.take (first + back.length) := by
    rw [List.take_add, ← List.prefix_iff_eq_take.mp part]
  apply SharedFile.ext
  change overwrite (overwrite file.bytes offset.toNat (kept first offset data))
      (UInt64.ofNat (offset.toNat + first)).toNat back =
    overwrite file.bytes offset.toNat (kept (first + back.length) offset data)
  have joined := overwrite_append file.bytes offset.toNat (data.take first) back
  rw [front, together] at joined
  rw [word, kept_of_fits fits, kept_of_fits (by omega), joined]

theorem withinLimits_of_payload
    (small : ∀ request count, (request, count) ∈ share.served →
      request.payload ≤ session.effectiveMaxIo) : share.WithinLimits session := by
  intro request count served
  have payload := small request count served
  exact ⟨payload, request_fits (payload.trans (effectiveMaxIo_le session))⟩

/-- A read gives the range of the file, and is recorded. -/
theorem server_readSingle {size : UInt32} (small : size.toNat ≤ MAX_IO_SIZE) :
    readSingle server.device nodeid fh share offset size =
      (⟨share.file, share.served ++ [(.read nodeid fh offset size,
          (range share.file.bytes offset.toNat size.toNat).length)]⟩,
        .ok (range share.file.bytes offset.toNat size.toNat)) := by
  have fits : (IoRequest.read nodeid fh offset size).payload ≤ MAX_IO_SIZE := small
  have inside : outHeader + (range share.file.bytes offset.toNat size.toNat).length ≤
      (IoRequest.read nodeid fh offset size).replyLength := by
    rw [length_range, IoRequest.replyLength]
    omega
  rw [readSingle, exchange_of_fits _ _ fits]
  simp only [FileServer.device]
  rw [acceptedBody_of_succeeds (server.succeeds _ _) inside]

/-- The count in the body of a reply is read back. -/
theorem writtenCount_reply {header : List UInt8} (succeeds : Succeeds header) {count : Nat}
    (small : count < 2 ^ 32) :
    acceptedBody (completed META_RESPONSE
        (header ++ (Bytes.toLittleEndian 4 count ++ Bytes.toLittleEndian 4 0))) >>= writtenCount =
      .ok (UInt32.ofNat count) := by
  have body : (Bytes.toLittleEndian 4 count ++ Bytes.toLittleEndian 4 0).length = writeOut := by
    rw [List.length_append, Bytes.length_toLittleEndian, Bytes.length_toLittleEndian, writeOut]
  have inside : outHeader + (Bytes.toLittleEndian 4 count ++ Bytes.toLittleEndian 4 0).length ≤
      META_RESPONSE := by
    rw [body]
    decide
  have number : VirtioFs.numberAt (Bytes.toLittleEndian 4 count ++ Bytes.toLittleEndian 4 0) 0 4 =
      count := @VirtioFs.numberAt_field [] _ 0 4 _ rfl small
  rw [acceptedBody_of_succeeds succeeds inside]
  change writtenCount (Bytes.toLittleEndian 4 count ++ Bytes.toLittleEndian 4 0) = _
  rw [writtenCount, body, if_neg (Nat.lt_irrefl _), number]

theorem length_kept_le (limit : Nat) (offset : UInt64) (data : List UInt8) :
    (kept limit offset data).length ≤ data.length := List.length_take_le' _ _

/-- A write stores what is kept, and reports how much that is. -/
theorem server_writeSingle {data : List UInt8} (small : data.length ≤ MAX_IO_SIZE) :
    writeSingle server.device nodeid fh share offset data =
      let limit := server.accepts share.served.length
      (⟨share.file.store limit offset data,
        share.served ++ [(.write nodeid fh offset (UInt32.ofNat data.length) data,
          (kept limit offset data).length)]⟩,
        .ok (UInt32.ofNat (kept limit offset data).length)) := by
  have fits : (IoRequest.write nodeid fh offset (UInt32.ofNat data.length) data).payload ≤
      MAX_IO_SIZE := small
  have few := length_kept_le (server.accepts share.served.length) offset data
  have narrow : (kept (server.accepts share.served.length) offset data).length < 2 ^ 32 := by
    unfold MAX_IO_SIZE at small
    omega
  rw [writeSingle, exchange_of_fits _ _ fits]
  simp only [FileServer.device, IoRequest.replyLength]
  rw [writtenCount_reply (server.succeeds _ _) narrow]

end Share

section Reading

variable (session : FuseSession) (server : FileServer) (file : SharedFile)
  (nodeid fh offset : UInt64)

/-- The request in a turn of a read, and the bytes it gets. -/
def readServed (size turn : Nat) : IoRequest × Nat :=
  (.read nodeid fh (UInt64.ofNat (offset.toNat + asked session size turn))
      (UInt32.ofNat (chunkSize session size turn)),
    (range file.bytes (offset.toNat + asked session size turn)
      (chunkSize session size turn)).length)

def serverReads (size : Nat) : Replies Share (List UInt8) where
  worlds := fun turn =>
    ⟨file, (List.range turn).map (readServed session file nodeid fh offset size)⟩
  values := fun turn => .ok (range file.bytes (offset.toNat + asked session size turn)
    (chunkSize session size turn))

/-- Reading in chunks is reading at once. -/
def ReadsAsOne (size : UInt32) : Prop :=
  ∃ fuel share,
    read server.device nodeid fh session fuel ⟨file, []⟩ offset size =
        some (share, .ok (range file.bytes offset.toNat size.toNat)) ∧
      share.file = file ∧ share.WithinLimits session

variable {session server file nodeid fh offset} {size turn : Nat}

theorem server_givesRead :
    GivesRead server.device nodeid fh session offset size
      (serverReads session file nodeid fh offset size) where
  single := by
    intro turn _ going
    have word : (UInt64.ofNat (offset.toNat + asked session size turn)).toNat =
        offset.toNat + asked session size turn := by
      rw [UInt64.toNat_ofNat', Nat.mod_eq_of_lt (asked_fits going)]
    have small : (UInt32.ofNat (chunkSize session size turn)).toNat ≤ MAX_IO_SIZE := by
      rw [chunk_word]
      exact chunkSize_le session size turn
    rw [server_readSingle small, word, chunk_word]
    simp only [serverReads, List.range_succ, List.map_append]
    rfl
  room := by
    rintro turn _ _ ⟨⟩
    rw [length_range]
    exact Nat.min_le_left _ _

/-- After full chunks the range that was asked for has come. -/
theorem collected_range
    (going : ∀ earlier < turn, readEnds session offset size
      (serverReads session file nodeid fh offset size) earlier = none) :
    collected (serverReads session file nodeid fh offset size) turn =
      range file.bytes offset.toNat (asked session size turn) := by
  induction turn with
  | zero => simp [collected, asked, range]
  | succ turn ih =>
      rw [@collected_succ _ _ _ (range file.bytes (offset.toNat + asked session size turn)
        (chunkSize session size turn)) rfl, ih (fun earlier less => going earlier (by omega)),
        range_append, ← asked_succ]

/-- However the loop ends, the whole range has been read. -/
theorem readEnds_range {share : Share} {outcome : Except IoFault (List UInt8)}
    (going : ∀ earlier < turn, readEnds session offset size
      (serverReads session file nodeid fh offset size) earlier = none)
    (ended : readEnds session offset size (serverReads session file nodeid fh offset size) turn =
      some (share, outcome)) :
    outcome = .ok (range file.bytes offset.toNat size) ∧
      ∃ turns, share = (serverReads session file nodeid fh offset size).worlds turns := by
  have gathered := collected_range going
  have small := asked_fits going
  have limit := file.small
  unfold readEnds at ended
  split at ended
  · rename_i finished
    have all : asked session size turn = size := Nat.min_eq_right finished
    cases ended
    rw [gathered, all]
    exact ⟨rfl, turn, rfl⟩
  · simp only [serverReads] at ended
    rw [length_range] at ended
    rw [if_neg (by omega)] at ended
    split at ended
    · rename_i short
      cases ended
      refine ⟨?_, turn + 1, rfl⟩
      have next : asked session size (turn + 1) ≤ size := Nat.min_le_right _ _
      have step := asked_succ session size turn
      change Except.ok (collected (serverReads session file nodeid fh offset size) turn ++ _) = _
      rw [gathered, range_append, ← step, range_of_ends _ _ (by omega) next]
    · cases ended

theorem serverReads_withinLimits (turns : Nat) :
    ((serverReads session file nodeid fh offset size).worlds turns).WithinLimits session := by
  refine withinLimits_of_payload ?_
  intro request count served
  obtain ⟨turn, _, own⟩ := List.mem_map.mp served
  cases own
  rw [IoRequest.payload, chunk_word]
  exact Nat.min_le_right _ _

/-- With a limit, reading in chunks is reading at once. -/
theorem readsAsOne (positive : 0 < session.effectiveMaxIo) (size : UInt32) :
    ReadsAsOne session server file nodeid fh offset size := by
  by_cases fits : size.toNat ≤ session.effectiveMaxIo
  · have single := @server_readSingle server ⟨file, []⟩ nodeid fh offset _
      (fits.trans (effectiveMaxIo_le session))
    refine ⟨0, _, by rw [read, if_pos fits, single]; rfl, rfl, withinLimits_of_payload ?_⟩
    intro request count served
    cases List.mem_singleton.mp served
    exact fits
  · have start : readStates session offset size.toNat
        (serverReads session file nodeid fh offset size.toNat) 0 =
        ⟨⟨file, []⟩, offset, size.toNat, []⟩ := by
      simp [readStates, asked, collected, serverReads]
    obtain ⟨turn, ⟨share, outcome⟩, going, ended⟩ :=
      TailCalls.first_end ⟨size.toNat, readEnds_last positive⟩
    obtain ⟨fuel, ran⟩ :=
      (readTurn_numbered (@server_givesRead _ server _ _ _ _ _)).returns_iff.mpr
        ⟨turn, going, ended⟩
    obtain ⟨rfl, turns, rfl⟩ := readEnds_range going ended
    refine ⟨fuel, (serverReads session file nodeid fh offset size.toNat).worlds turns, ?_, rfl,
      serverReads_withinLimits turns⟩
    rw [read, if_neg fits, ← start]
    exact ran

end Reading

section Writing

variable (session : FuseSession) (server : FileServer) (file : SharedFile)
  (nodeid fh offset : UInt64) (data : List UInt8)

def keptIn (turn : Nat) : List UInt8 :=
  kept (server.accepts turn) (UInt64.ofNat (offset.toNat + turn * session.effectiveMaxIo))
    ((data.drop (turn * session.effectiveMaxIo)).take (chunkSize session data.length turn))

/-- The request in a turn of a write, and the bytes that are kept of it. -/
def writeServed (turn : Nat) : IoRequest × Nat :=
  let chunk := (data.drop (turn * session.effectiveMaxIo)).take
    (chunkSize session data.length turn)
  (.write nodeid fh (UInt64.ofNat (offset.toNat + turn * session.effectiveMaxIo))
      (UInt32.ofNat chunk.length) chunk,
    (keptIn session server offset data turn).length)

/-- How much of the data the file has after so many turns, all but the last of them full. -/
def stored : Nat → Nat
  | 0 => 0
  | turn + 1 => turn * session.effectiveMaxIo + (keptIn session server offset data turn).length

def serverWrites : Replies Share UInt32 where
  worlds := fun turn =>
    ⟨file.store (stored session server offset data turn) offset data,
      (List.range turn).map (writeServed session server nodeid fh offset data)⟩
  values := fun turn => .ok (UInt32.ofNat (keptIn session server offset data turn).length)

/-- Writing in chunks is writing at once what is reported, which is all unless a write was short. -/
def WritesAsOne : Prop :=
  ∃ fuel share count,
    write server.device nodeid fh session fuel ⟨file, []⟩ offset data = some (share, .ok count) ∧
      count.toNat ≤ data.length ∧
      share.file.bytes = overwrite file.bytes offset.toNat (data.take count.toNat) ∧
      (count.toNat = data.length ∨ share.ShortWrite) ∧ share.WithinLimits session

/-- The count of `write` stays in its type: there is less data than that, or a write that is short
comes before so much is written. -/
def CountFits : Prop :=
  data.length < 2 ^ 32 ∨ ∃ turn, turn * session.effectiveMaxIo < data.length ∧
    (keptIn session server offset data turn).length < chunkSize session data.length turn ∧
    turn * session.effectiveMaxIo + (keptIn session server offset data turn).length < 2 ^ 32

variable {session server file nodeid fh offset data} {turn : Nat}

theorem length_chunk (turn : Nat) :
    ((data.drop (turn * session.effectiveMaxIo)).take
      (chunkSize session data.length turn)).length = chunkSize session data.length turn := by
  rw [List.length_take, List.length_drop, chunkSize]
  omega

theorem keptIn_le (turn : Nat) :
    (keptIn session server offset data turn).length ≤ chunkSize session data.length turn :=
  (length_kept_le _ _ _).trans_eq (length_chunk turn)

theorem keptIn_word (turn : Nat) :
    (UInt32.ofNat (keptIn session server offset data turn).length).toNat =
      (keptIn session server offset data turn).length := by
  have few := (@keptIn_le session server offset data turn).trans (chunkSize_le session _ turn)
  unfold MAX_IO_SIZE at few
  rw [UInt32.toNat_ofNat', Nat.mod_eq_of_lt (by omega)]

/-- A turn that goes on kept all of its chunk. -/
theorem keptIn_full
    (going : writeEnds session offset data
      (serverWrites session server file nodeid fh offset data) turn = none) :
    turn * session.effectiveMaxIo < data.length ∧
      (keptIn session server offset data turn).length = chunkSize session data.length turn := by
  obtain ⟨more, written, value, _, _, full⟩ := writeEnds_eq_none.mp going
  cases value
  rw [keptIn_word] at full
  exact ⟨more, (keptIn_le turn).antisymm full⟩

/-- After full chunks, what is reported and what is in the file is what was asked for. -/
theorem reported_stored
    (going : ∀ earlier < turn, writeEnds session offset data
      (serverWrites session server file nodeid fh offset data) earlier = none) :
    reported (serverWrites session server file nodeid fh offset data) turn =
        asked session data.length turn ∧
      stored session server offset data turn = asked session data.length turn := by
  induction turn with
  | zero => simp [reported, stored, asked]
  | succ turn ih =>
      obtain ⟨counted, _⟩ := ih (fun earlier less => going earlier (by omega))
      obtain ⟨more, full⟩ := keptIn_full (going turn (by omega))
      have before : asked session data.length turn = turn * session.effectiveMaxIo :=
        Nat.min_eq_left more.le
      have value : (serverWrites session server file nodeid fh offset data).values turn =
          .ok (UInt32.ofNat (keptIn session server offset data turn).length) := rfl
      rw [reported_succ value, keptIn_word, counted, stored, full, asked_succ, before]
      exact ⟨rfl, rfl⟩

theorem server_givesWrite :
    GivesWrite server.device nodeid fh session offset data
      (serverWrites session server file nodeid fh offset data) := by
  intro turn more going
  obtain ⟨counted, inFile⟩ := reported_stored going
  have before : asked session data.length turn = turn * session.effectiveMaxIo :=
    Nat.min_eq_left more.le
  have fits := (reported_fits going).2
  rw [counted, before] at fits
  have small : ((data.drop (turn * session.effectiveMaxIo)).take
      (chunkSize session data.length turn)).length ≤ MAX_IO_SIZE := by
    rw [length_chunk]
    exact chunkSize_le session data.length turn
  rw [server_writeSingle small, counted, before]
  simp only [serverWrites, List.length_map, List.length_range]
  rw [inFile, before, SharedFile.store_store _ _ more.le fits, List.range_succ, List.map_append]
  rfl

theorem serverWrites_withinLimits (turns : Nat) :
    ((serverWrites session server file nodeid fh offset data).worlds turns).WithinLimits
      session := by
  refine withinLimits_of_payload ?_
  intro request count served
  obtain ⟨turn, _, own⟩ := List.mem_map.mp served
  cases own
  rw [IoRequest.payload, length_chunk]
  exact Nat.min_le_right _ _

theorem serverWrites_shortWrite
    (short : (keptIn session server offset data turn).length <
      chunkSize session data.length turn) :
    ((serverWrites session server file nodeid fh offset data).worlds (turn + 1)).ShortWrite := by
  refine ⟨_, _, List.mem_map.mpr ⟨turn, List.mem_range.mpr turn.lt_succ_self, rfl⟩, ?_⟩
  rw [IoRequest.payload, length_chunk]
  exact short

/-- The loop ends with everything written, with the count out of its type, or with a short write. -/
inductive Ending (session : FuseSession) (server : FileServer) (file : SharedFile)
    (nodeid fh offset : UInt64) (data : List UInt8) (turn : Nat) :
    Share → Except IoFault UInt32 → Prop
  | all (finished : data.length ≤ turn * session.effectiveMaxIo) (small : data.length < 2 ^ 32)
      (last : stored session server offset data turn = data.length)
      (fits : offset.toNat + data.length < 2 ^ 64) :
      Ending session server file nodeid fh offset data turn
        ((serverWrites session server file nodeid fh offset data).worlds turn)
        (.ok (UInt32.ofNat data.length))
  | short (more : turn * session.effectiveMaxIo < data.length)
      (few : (keptIn session server offset data turn).length < chunkSize session data.length turn)
      (small : stored session server offset data (turn + 1) < 2 ^ 32)
      (fits : offset.toNat + stored session server offset data (turn + 1) < 2 ^ 64) :
      Ending session server file nodeid fh offset data turn
        ((serverWrites session server file nodeid fh offset data).worlds (turn + 1))
        (.ok (UInt32.ofNat (stored session server offset data (turn + 1))))
  | tooMany {share : Share} (more : turn * session.effectiveMaxIo < data.length)
      (large : 2 ^ 32 ≤ stored session server offset data (turn + 1)) :
      Ending session server file nodeid fh offset data turn share (.error .overflow)

theorem writeEnds_ending {share : Share} {outcome : Except IoFault UInt32}
    (going : ∀ earlier < turn, writeEnds session offset data
      (serverWrites session server file nodeid fh offset data) earlier = none)
    (ended : writeEnds session offset data
      (serverWrites session server file nodeid fh offset data) turn = some (share, outcome)) :
    Ending session server file nodeid fh offset data turn share outcome := by
  obtain ⟨counted, inFile⟩ := reported_stored going
  obtain ⟨small, fits⟩ := reported_fits going
  rw [counted] at small fits
  rw [writeEnds, counted] at ended
  split at ended
  · rename_i finished
    have all : asked session data.length turn = data.length := Nat.min_eq_right finished
    rw [all] at ended inFile small fits
    cases ended
    exact .all finished small inFile fits
  · rename_i more
    have before : asked session data.length turn = turn * session.effectiveMaxIo :=
      Nat.min_eq_left (by omega)
    have room : (keptIn session server offset data turn).length ≤
        2 ^ 64 - 1 - (offset.toNat + turn * session.effectiveMaxIo) := by
      rw [before] at fits
      have word : (UInt64.ofNat (offset.toNat + turn * session.effectiveMaxIo)).toNat =
          offset.toNat + turn * session.effectiveMaxIo := by
        rw [UInt64.toNat_ofNat', Nat.mod_eq_of_lt fits]
      rw [← word]
      exact (List.length_take_le _ _).trans (Nat.min_le_right _ _)
    simp only [serverWrites] at ended
    rw [keptIn_word, before] at ended
    rw [before] at fits
    split at ended
    · rename_i large
      cases ended
      exact .tooMany (by omega) large
    · rename_i inType
      rw [if_neg (by omega)] at ended
      split at ended
      · rename_i few
        cases ended
        have part : stored session server offset data (turn + 1) =
          turn * session.effectiveMaxIo + (keptIn session server offset data turn).length := rfl
        exact .short (by omega) few (by omega) (by omega)
      · cases ended

theorem serverWrites_bytes {turns : Nat}
    (fits : offset.toNat + stored session server offset data turns < 2 ^ 64) :
    ((serverWrites session server file nodeid fh offset data).worlds turns).file.bytes =
      overwrite file.bytes offset.toNat
        (data.take (stored session server offset data turns)) := by
  change overwrite file.bytes offset.toNat (kept (stored session server offset data turns)
    offset data) = _
  rw [kept_of_fits fits]

/-- Where the loop gives a count, so much of the data is in the file. -/
theorem Ending.writes {share : Share} {count : UInt32}
    (ending : Ending session server file nodeid fh offset data turn share (.ok count)) :
    count.toNat ≤ data.length ∧
      share.file.bytes = overwrite file.bytes offset.toNat (data.take count.toNat) ∧
      (count.toNat = data.length ∨ share.ShortWrite) ∧ share.WithinLimits session := by
  cases ending with
  | all finished small last fits =>
      rw [count_word small]
      refine ⟨le_rfl, ?_, .inl rfl, serverWrites_withinLimits turn⟩
      rw [serverWrites_bytes (by rwa [last]), last]
  | short more few small fits =>
      rw [count_word small]
      refine ⟨?_, serverWrites_bytes fits, .inr (serverWrites_shortWrite few),
        serverWrites_withinLimits (turn + 1)⟩
      have part : chunkSize session data.length turn ≤
        data.length - turn * session.effectiveMaxIo := Nat.min_le_left _ _
      rw [stored]
      omega

/-- A request that is written at once keeps some prefix. -/
theorem writesAsOne_of_le (fits : data.length ≤ session.effectiveMaxIo) :
    WritesAsOne session server file nodeid fh offset data := by
  have small := fits.trans (effectiveMaxIo_le session)
  have single := @server_writeSingle server ⟨file, []⟩ nodeid fh offset data small
  let part := kept (server.accepts 0) offset data
  have few : part.length ≤ data.length := length_kept_le _ _ _
  have narrow : part.length < 2 ^ 32 := by
    unfold MAX_IO_SIZE at small
    omega
  have prefix_ : part = data.take part.length :=
    List.prefix_iff_eq_take.mp (List.take_prefix _ _)
  refine ⟨0, _, UInt32.ofNat part.length, by rw [write, if_pos fits, single]; rfl, ?_⟩
  rw [count_word narrow]
  refine ⟨few, congrArg (overwrite file.bytes offset.toNat) prefix_, ?_, ?_⟩
  · rcases few.lt_or_eq with less | all
    · exact .inr ⟨_, _, List.mem_singleton.mpr rfl, less⟩
    · exact .inl all
  · refine withinLimits_of_payload ?_
    intro request count served
    cases List.mem_singleton.mp served
    exact fits

/-- A count that fits is in its type in every turn that is reached. -/
theorem stored_lt (countFits : CountFits session server offset data)
    (more : turn * session.effectiveMaxIo < data.length)
    (going : ∀ earlier < turn, writeEnds session offset data
      (serverWrites session server file nodeid fh offset data) earlier = none) :
    ¬ 2 ^ 32 ≤ stored session server offset data (turn + 1) := by
  have part := @keptIn_le session server offset data turn
  have left : chunkSize session data.length turn ≤ data.length - turn * session.effectiveMaxIo :=
    Nat.min_le_left _ _
  have limit : chunkSize session data.length turn ≤ session.effectiveMaxIo := Nat.min_le_right _ _
  rw [stored]
  rcases countFits with small | ⟨other, _, few, fits⟩
  · omega
  · rcases Nat.lt_trichotomy other turn with before | rfl | after
    · have full := (keptIn_full (going other before)).2
      omega
    · omega
    · have later := Nat.mul_le_mul_right session.effectiveMaxIo after
      rw [Nat.succ_mul] at later
      omega

/-- With a limit, writing in chunks is writing at once if and only if the count fits. -/
theorem writesAsOne_iff (positive : 0 < session.effectiveMaxIo) :
    WritesAsOne session server file nodeid fh offset data ↔
      CountFits session server offset data := by
  by_cases fits : data.length ≤ session.effectiveMaxIo
  · refine iff_of_true (writesAsOne_of_le fits) (.inl ?_)
    have small := fits.trans (effectiveMaxIo_le session)
    unfold MAX_IO_SIZE at small
    omega
  · have start : writeStates session offset data
        (serverWrites session server file nodeid fh offset data) 0 =
        ⟨⟨file, []⟩, 0, offset, data⟩ := by
      have whole : file.store 0 offset data = file := by
        apply SharedFile.ext
        change overwrite file.bytes offset.toNat (kept 0 offset data) = file.bytes
        rw [kept, Nat.zero_min, List.take_zero, overwrite_nil]
      simp [writeStates, reported, serverWrites, stored, whole]
    have numbered := writeTurn_numbered
      (@server_givesWrite session server file nodeid fh offset data)
    constructor
    · rintro ⟨fuel, share, count, ran, _⟩
      rw [write, if_neg fits, ← start] at ran
      obtain ⟨turn, going, ended⟩ := numbered.returns_iff.mp ⟨fuel, ran⟩
      cases writeEnds_ending going ended with
      | all _ small => exact .inl small
      | short more few small => exact .inr ⟨turn, more, few, small⟩
    · intro countFits
      obtain ⟨turn, ⟨share, outcome⟩, going, ended⟩ :=
        TailCalls.first_end ⟨data.length, writeEnds_last positive⟩
      obtain ⟨fuel, ran⟩ := numbered.returns_iff.mpr ⟨turn, going, ended⟩
      rw [start] at ran
      have ending := writeEnds_ending going ended
      cases outcome with
      | ok count => exact ⟨fuel, share, count, by rwa [write, if_neg fits], ending.writes⟩
      | error fault =>
          cases ending with
          | tooMany more large => exact absurd large (stored_lt countFits more going)

end Writing

section AtOnce

theorem effectiveMaxIo_pos {session : FuseSession} (negotiated : 4096 ≤ session.maxWrite.toNat) :
    0 < session.effectiveMaxIo := by
  unfold FuseSession.effectiveMaxIo MAX_IO_SIZE
  omega

/-- On a host that serves a file, reading in chunks is reading at once, and writing in chunks is
writing at once unless the count of the bytes that are written leaves its type. -/
theorem chunked_io_iff {session : FuseSession} (negotiated : 4096 ≤ session.maxWrite.toNat)
    (server : FileServer) (file : SharedFile) (nodeid fh offset : UInt64) (size : UInt32)
    (data : List UInt8) :
    ReadsAsOne session server file nodeid fh offset size ∧
        WritesAsOne session server file nodeid fh offset data ↔
      CountFits session server offset data := by
  have positive := effectiveMaxIo_pos negotiated
  constructor
  · rintro ⟨_, writes⟩
    exact (writesAsOne_iff positive).mp writes
  · intro fits
    exact ⟨readsAsOne positive size, (writesAsOne_iff positive).mpr fits⟩

/-- A host that takes all it is given. -/
def wholeServer : FileServer where
  header := fun _ _ => List.replicate 16 0
  succeeds := fun _ _ => ⟨rfl, by decide⟩
  accepts := fun _ => MAX_IO_SIZE

def emptyFile : SharedFile := ⟨[], Nat.two_pow_pos 64⟩

theorem wholeServer_one :
    ReadsAsOne ⟨4096⟩ wholeServer emptyFile 1 1 0 8192 ∧
      WritesAsOne ⟨4096⟩ wholeServer emptyFile 1 1 0 [7] :=
  (chunked_io_iff (by decide) wholeServer emptyFile 1 1 0 8192 [7]).mpr (.inl (by decide))

/-- Four gigabytes that a host stores in full are more than the count can tell. -/
theorem fourGigabytes_uncounted :
    ¬ WritesAsOne ⟨4096⟩ wholeServer emptyFile 1 1 0 (List.replicate (2 ^ 32) 0) := by
  have limit : FuseSession.effectiveMaxIo ⟨4096⟩ = 4096 := by decide
  rw [writesAsOne_iff (limit ▸ Nat.zero_lt_succ 4095)]
  rintro (small | ⟨turn, more, few, _⟩)
  · rw [List.length_replicate] at small
    omega
  · rw [limit, List.length_replicate] at more
    have chunk := chunkSize_le ⟨4096⟩ (List.replicate (2 ^ 32) (0 : UInt8)).length turn
    have word : (UInt64.ofNat ((0 : UInt64).toNat + turn * 4096)).toNat = turn * 4096 := by
      rw [UInt64.toNat_ofNat', Nat.mod_eq_of_lt]
      · exact Nat.zero_add _
      · change 0 + turn * 4096 < 2 ^ 64
        omega
    rw [keptIn, kept, List.length_take, length_chunk, limit, word] at few
    change min (min MAX_IO_SIZE _) _ < _ at few
    unfold MAX_IO_SIZE at few chunk
    omega

end AtOnce

end NixRedox.FuseIo
