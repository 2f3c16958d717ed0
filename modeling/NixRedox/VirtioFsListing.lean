import NixRedox.VirtioFs

set_option autoImplicit false

/- Listing a shared directory: what the host sends, what the scheme caches of it, and
what a client that reads to the end gets. -/
namespace NixRedox.VirtioFs

/-- An entry of a directory on the host. `off` is the cookie to go on after it. -/
structure HostEntry where
  ino : UInt64
  off : UInt64
  typ : UInt32
  name : List UInt8
  deriving DecidableEq, Repr

namespace HostEntry

def encodedSize (entry : HostEntry) : Nat := fuseDirentSize entry.name.length

/-- The entry on the wire. -/
def encode (entry : HostEntry) : List UInt8 :=
  Bytes.toLittleEndian 8 entry.ino.toNat ++ Bytes.toLittleEndian 8 entry.off.toNat ++
    Bytes.toLittleEndian 4 entry.name.length ++ Bytes.toLittleEndian 4 entry.typ.toNat ++
    entry.name ++ List.replicate (entry.encodedSize - direntHeader - entry.name.length) 0

/-- The bytes in front of the name. -/
def header (entry : HostEntry) : List UInt8 :=
  Bytes.toLittleEndian 8 entry.ino.toNat ++ Bytes.toLittleEndian 8 entry.off.toNat ++
    Bytes.toLittleEndian 4 entry.name.length ++ Bytes.toLittleEndian 4 entry.typ.toNat

/-- The zeros behind the name. -/
def padding (entry : HostEntry) : List UInt8 :=
  List.replicate (entry.encodedSize - direntHeader - entry.name.length) 0

theorem encode_eq (entry : HostEntry) :
    entry.encode = entry.header ++ entry.name ++ entry.padding := rfl

theorem length_header (entry : HostEntry) : entry.header.length = direntHeader := by
  simp [header, direntHeader]

/-- The entry as the scheme parses it. A name that is not UTF-8 is replaced in part. -/
def parsed (entry : HostEntry) : DirEntry :=
  ⟨entry.ino, entry.off, entry.typ, Bytes.fromUtf8Lossy entry.name⟩

/-- The entry as a client is to see it. -/
def shown (entry : HostEntry) : RedoxDirEntry := entry.parsed.shown

theorem shown_name_utf8 (ino off : UInt64) (typ : UInt32) (name : List Char) :
    (shown ⟨ino, off, typ, Bytes.utf8 name⟩).name = name :=
  Bytes.fromUtf8Lossy_utf8 name

end HostEntry

/-- The entries after a cookie; zero is the start. -/
def afterCookie (entries : List HostEntry) (cookie : UInt64) : List HostEntry :=
  if cookie = 0 then entries else (entries.dropWhile (·.off ≠ cookie)).tail

/-- The longest run of entries at the front whose encodings have room. -/
def fitting : Nat → List HostEntry → List HostEntry
  | _, [] => []
  | room, entry :: rest =>
      if entry.encodedSize ≤ room then
        entry :: fitting (room - entry.encodedSize) rest
      else
        []

/-- The host answers `READDIR` on the handle from an unchanging directory. -/
def Serves (server : FuseServer) (nodeid fh : UInt64) (entries : List HostEntry) : Prop :=
  ∀ exchanges offset size, server exchanges (.readdir nodeid fh offset size) =
    .ok ((fitting size.toNat (afterCookie entries offset)).flatMap HostEntry.encode)

section Client

/-- A client between two calls. -/
structure Client where
  scheme : VirtioFsScheme
  offset : Nat
  received : List RedoxDirEntry

variable (server : FuseServer) (id : Nat) (buf : DirentBuf)

/-- One call; `none` when it fails or never returns. -/
def Client.call (client : Client) (capacity : Nat) :
    Option (List (RedoxDirEntry × Nat) × VirtioFsScheme) :=
  match (getdents server id buf capacity client.offset).perform client.scheme with
  | some (.ok page, scheme) => some (page, scheme)
  | _ => none

/-- The client after some calls, each going on from the last entry it got. -/
def listingRun (capacity : Nat → Nat) (scheme : VirtioFsScheme) : Nat → Option Client
  | 0 => some ⟨scheme, 0, []⟩
  | calls + 1 => (listingRun capacity scheme calls).bind fun client =>
      (client.call server id buf (capacity calls)).map fun reply =>
        { scheme := reply.2
          offset := (reply.1.getLast?.map Prod.snd).getD client.offset
          received := client.received ++ reply.1.map Prod.fst }

/-- After so many calls the next one succeeds and adds no entry. -/
def ListingEnded (capacity : Nat → Nat) (scheme : VirtioFsScheme) (calls : Nat) : Prop :=
  ∃ client after, listingRun server id buf capacity scheme calls = some client ∧
    client.call server id buf (capacity calls) = some ([], after)

/-- Every buffer holds at least the next entry of the directory. -/
def AdequateBuffers (capacity : Nat → Nat) (scheme : VirtioFsScheme)
    (entries : List HostEntry) : Prop :=
  ∀ calls client entry, listingRun server id buf capacity scheme calls = some client →
    entries[client.offset]? = some entry → buf.size entry.shown ≤ capacity calls

/-- A client that reads until a call adds nothing has every entry exactly once. -/
def CompleteListing (scheme : VirtioFsScheme) (entries : List HostEntry) : Prop :=
  ∀ capacity, AdequateBuffers server id buf capacity scheme entries →
    ∃ calls client, ListingEnded server id buf capacity scheme calls ∧
      (∀ earlier < calls, ¬ ListingEnded server id buf capacity scheme earlier) ∧
      listingRun server id buf capacity scheme calls = some client ∧
      client.received.Perm (entries.map HostEntry.shown)

end Client

section Wire

theorem encodedSize_ge (entry : HostEntry) :
    direntHeader + entry.name.length ≤ entry.encodedSize := by
  unfold HostEntry.encodedSize fuseDirentSize
  omega

theorem length_encode (entry : HostEntry) : entry.encode.length = entry.encodedSize := by
  have enough := encodedSize_ge entry
  unfold direntHeader at enough
  simp only [HostEntry.encode, List.length_append, Bytes.length_toLittleEndian,
    List.length_replicate, direntHeader]
  omega

theorem length_fitting (room : Nat) (entries : List HostEntry) :
    ((fitting room entries).flatMap HostEntry.encode).length ≤ room := by
  induction entries generalizing room with
  | nil => exact Nat.zero_le room
  | cons entry rest ih =>
      unfold fitting
      split
      · have tail := ih (room - entry.encodedSize)
        rw [List.flatMap_cons, List.length_append, length_encode]
        omega
      · exact Nat.zero_le room

theorem fitting_eq_self_iff {room : Nat} {entries : List HostEntry} :
    fitting room entries = entries ↔ (entries.map HostEntry.encodedSize).sum ≤ room := by
  induction entries generalizing room with
  | nil => simp [fitting]
  | cons entry rest ih =>
      rw [fitting, List.map_cons, List.sum_cons]
      by_cases fits : entry.encodedSize ≤ room
      · simp only [if_pos fits, List.cons.injEq, ih, true_and]
        omega
      · rw [if_neg fits]
        simp only [List.nil_eq, reduceCtorEq, false_iff]
        omega

theorem fitting_front (room : Nat) (entries : List HostEntry) : fitting room entries <+: entries := by
  induction entries generalizing room with
  | nil => exact List.prefix_rfl
  | cons entry rest ih =>
      unfold fitting
      split
      · exact List.prefix_cons_inj entry |>.mpr (ih _)
      · exact List.nil_prefix

/-- The number in a field, after the bytes before it. -/
theorem numberAt_field {front back : List UInt8} {offset width value : Nat}
    (before : front.length = offset) (small : value < 256 ^ width) :
    numberAt (front ++ (Bytes.toLittleEndian width value ++ back)) offset width = value := by
  unfold numberAt
  rw [← before, List.drop_left,
    List.take_left' (Bytes.length_toLittleEndian width value)]
  exact Bytes.littleEndian_toLittleEndian width value small

/-- A header is read, whatever stands behind it; there is an entry if the name does. -/
theorem parseDirentsUpTo_header (entry : HostEntry) (tail : List UInt8) (fuel : Nat)
    (short : entry.name.length < 2 ^ 32) :
    parseDirentsUpTo (fuel + 1) (entry.header ++ tail) =
      if entry.name.length ≤ tail.length then
        ⟨entry.ino, entry.off, entry.typ, Bytes.fromUtf8Lossy (tail.take entry.name.length)⟩ ::
          parseDirentsUpTo fuel ((entry.header ++ tail).drop (fuseDirentSize entry.name.length))
      else
        [] := by
  let ino := Bytes.toLittleEndian 8 entry.ino.toNat
  let off := Bytes.toLittleEndian 8 entry.off.toNat
  let namelen := Bytes.toLittleEndian 4 entry.name.length
  let typ := Bytes.toLittleEndian 4 entry.typ.toNat
  have layout : entry.header ++ tail = ino ++ (off ++ (namelen ++ (typ ++ tail))) := by
    simp only [HostEntry.header, List.append_assoc, ino, off, namelen, typ]
  have inoField : numberAt (entry.header ++ tail) 0 8 = entry.ino.toNat := by
    rw [layout]
    exact @numberAt_field [] _ 0 8 _ rfl entry.ino.toNat_lt
  have offField : numberAt (entry.header ++ tail) 8 8 = entry.off.toNat := by
    rw [layout]
    exact numberAt_field (by simp [ino]) entry.off.toNat_lt
  have lengthField : numberAt (entry.header ++ tail) 16 4 = entry.name.length := by
    rw [layout, ← List.append_assoc]
    exact numberAt_field (by simp [ino, off]) short
  have typField : numberAt (entry.header ++ tail) 20 4 = entry.typ.toNat := by
    rw [layout, ← List.append_assoc, ← List.append_assoc]
    exact numberAt_field (by simp [ino, off, namelen]) entry.typ.toNat_lt
  have name : (entry.header ++ tail).drop direntHeader = tail := by
    rw [← entry.length_header, List.drop_left]
  have size : (entry.header ++ tail).length = direntHeader + tail.length := by
    rw [List.length_append, entry.length_header]
  rw [parseDirentsUpTo, size, lengthField, if_pos (by omega), inoField, offField, typField, name]
  simp only [Nat.add_le_add_iff_left, UInt64.ofNat_toNat, UInt32.ofNat_toNat]

/-- One entry at the front of a reply is parsed off. -/
theorem parseDirentsUpTo_encode (entry : HostEntry) (rest : List UInt8) (fuel : Nat)
    (short : entry.name.length < 2 ^ 32) :
    parseDirentsUpTo (fuel + 1) (entry.encode ++ rest) =
      entry.parsed :: parseDirentsUpTo fuel rest := by
  have layout : entry.encode ++ rest =
      entry.header ++ (entry.name ++ (entry.padding ++ rest)) := by
    simp only [HostEntry.encode_eq, List.append_assoc]
  have next : (entry.encode ++ rest).drop (fuseDirentSize entry.name.length) = rest := by
    have same : fuseDirentSize entry.name.length = entry.encode.length :=
      (length_encode entry).symm
    rw [same, List.drop_left]
  rw [layout, parseDirentsUpTo_header entry _ fuel short, ← layout, next, if_pos (by simp),
    List.take_left]
  rfl

theorem parseDirentsUpTo_encodeAll (entries : List HostEntry) (fuel : Nat)
    (enough : entries.length ≤ fuel) (short : ∀ entry ∈ entries, entry.name.length < 2 ^ 32) :
    parseDirentsUpTo fuel (entries.flatMap HostEntry.encode) = entries.map HostEntry.parsed := by
  induction entries generalizing fuel with
  | nil => cases fuel <;> rfl
  | cons entry rest ih =>
      rw [List.length_cons] at enough
      obtain ⟨less, rfl⟩ : ∃ less, fuel = less + 1 := ⟨fuel - 1, by omega⟩
      rw [List.flatMap_cons, parseDirentsUpTo_encode _ _ _ (short entry List.mem_cons_self),
        ih less (by omega) fun other member => short other (List.mem_cons_of_mem entry member),
        List.map_cons]

/-- What the scheme parses is what the host listed, as far as it fitted. -/
theorem parseDirents_fitting (room : Nat) (small : room < 2 ^ 32) (entries : List HostEntry) :
    parseDirents ((fitting room entries).flatMap HostEntry.encode) =
      (fitting room entries).map HostEntry.parsed := by
  have member_le : ∀ (listed : List HostEntry), ∀ entry ∈ listed,
      entry.encode.length ≤ (listed.flatMap HostEntry.encode).length := by
    intro listed entry member
    rw [List.length_flatMap]
    exact List.single_le_sum (by simp) _ (List.mem_map_of_mem member)
  have count_le : ∀ listed : List HostEntry,
      listed.length ≤ (listed.flatMap HostEntry.encode).length := by
    intro listed
    induction listed with
    | nil => exact Nat.le_refl 0
    | cons entry rest ih =>
        have positive := encodedSize_ge entry
        unfold direntHeader at positive
        rw [List.flatMap_cons, List.length_append, length_encode, List.length_cons]
        omega
  apply parseDirentsUpTo_encodeAll _ _ (count_le _)
  intro entry member
  have inside := member_le _ entry member
  have total := length_fitting room entries
  have header := encodedSize_ge entry
  rw [length_encode] at inside
  omega

end Wire

section Cached

variable {server : FuseServer} {id : Nat} {buf : DirentBuf} {nodeid fh : UInt64}
  {entries : List HostEntry}

/-- The part of the directory that one request brings. -/
def listed (entries : List HostEntry) : List HostEntry := fitting 32768 entries

/-- The directory handle is open, and holds the listing once the client has moved on. -/
def CachesListing (id : Nat) (nodeid fh : UInt64) (entries : List HostEntry)
    (scheme : VirtioFsScheme) (offset : Nat) : Prop :=
  ∃ handle, scheme.handles.lookup id = some handle ∧ handle.isDir = true ∧
    handle.nodeid = nodeid ∧ handle.fh = fh ∧
    (offset = 0 ∨ handle.dirEntries = some ((listed entries).map HostEntry.parsed))

variable (buf) in
/-- Every call pages through the cached part. -/
theorem call_eq (serves : Serves server nodeid fh entries) {client : Client}
    (caches : CachesListing id nodeid fh entries client.scheme client.offset) (capacity : Nat) :
    ∃ after, client.call server id buf capacity = some (Paging.pageOf buf
        ((listed entries).map HostEntry.shown) capacity client.offset, after) ∧
      ∀ offset, CachesListing id nodeid fh entries after offset := by
  obtain ⟨scheme, offset, received⟩ := client
  obtain ⟨handle, found, directory, rfl, rfl, cached⟩ := caches
  have shown : ((listed entries).map HostEntry.parsed).map DirEntry.shown =
      (listed entries).map HostEntry.shown := by
    rw [List.map_map]
    rfl
  have answer : server.answer scheme.exchanges (.readdir handle.nodeid handle.fh 0 32768) =
      .ok ((listed entries).flatMap HostEntry.encode) := by
    have whole : afterCookie entries 0 = entries := rfl
    have room := length_fitting (32768 : UInt32).toNat entries
    rw [FuseServer.answer, serves, whole]
    simp only [FuseRequest.fits, decide_eq_true room, ↓reduceIte]
    rfl
  have parsed : parseDirents ((listed entries).flatMap HostEntry.encode) =
      (listed entries).map HostEntry.parsed := parseDirents_fitting 32768 (by omega) entries
  by_cases asks : handle.dirEntries = none ∨ offset = 0
  · let fresh : Handle :=
      { handle with dirEntries := some ((listed entries).map HostEntry.parsed) }
    refine ⟨{ scheme with
      handles := scheme.handles.insert id fresh
      exchanges := ⟨.readdir handle.nodeid handle.fh 0 32768,
        .ok ((listed entries).flatMap HostEntry.encode)⟩ :: scheme.exchanges }, ?_,
      fun _ => ⟨fresh, AList.lookup_insert _, directory, rfl, rfl, .inr rfl⟩⟩
    simp only [Client.call, getdents, fetchEntries, perform_bind, perform_getHandle, found,
      directory, Bool.true_eq_false, ↓reduceIte, asks, perform_pure, perform_ask,
      perform_setHandle, answer, Except.mapError, parsed, shown, fresh]
  · have same : handle.dirEntries = some ((listed entries).map HostEntry.parsed) :=
      cached.resolve_left fun start => asks (.inr start)
    refine ⟨scheme, ?_, fun _ => ⟨handle, found, directory, rfl, rfl, .inr same⟩⟩
    have fetched : (fetchEntries server id handle offset).perform scheme =
        some (.ok ((listed entries).map HostEntry.parsed), scheme) := by
      rw [fetchEntries, if_neg asks, same]
      rfl
    simp only [Client.call, getdents, perform_bind, perform_getHandle, found, directory,
      Bool.true_eq_false, ↓reduceIte, fetched, perform_pure, shown]

/-- The client gets what one that pages through the cached part gets. -/
theorem listingRun_eq (serves : Serves server nodeid fh entries) {scheme : VirtioFsScheme}
    (opened : CachesListing id nodeid fh entries scheme 0) (capacity : Nat → Nat) (calls : Nat) :
    ∃ client, listingRun server id buf capacity scheme calls = some client ∧
      CachesListing id nodeid fh entries client.scheme client.offset ∧
      client.offset = (Paging.session (Paging.pageOf buf
        ((listed entries).map HostEntry.shown)) capacity calls).offset ∧
      client.received = (Paging.session (Paging.pageOf buf
        ((listed entries).map HostEntry.shown)) capacity calls).received := by
  induction calls with
  | zero => exact ⟨⟨scheme, 0, []⟩, rfl, opened, rfl, rfl⟩
  | succ calls ih =>
      obtain ⟨client, reached, caches, offset, received⟩ := ih
      obtain ⟨after, called, still⟩ := call_eq buf serves caches (capacity calls)
      let page := Paging.pageOf buf ((listed entries).map HostEntry.shown)
        (capacity calls) client.offset
      refine ⟨⟨after, (page.getLast?.map Prod.snd).getD client.offset,
        client.received ++ page.map Prod.fst⟩, ?_, still _, ?_, ?_⟩
      · simp only [listingRun, reached, Option.bind_some, called, Option.map_some]
        rfl
      · simp only [page, Paging.session, offset]
      · simp only [page, Paging.session, offset, received]

theorem listingEnded_iff (serves : Serves server nodeid fh entries) {scheme : VirtioFsScheme}
    (opened : CachesListing id nodeid fh entries scheme 0) (capacity : Nat → Nat) (calls : Nat) :
    ListingEnded server id buf capacity scheme calls ↔
      Paging.Ended (Paging.pageOf buf ((listed entries).map HostEntry.shown))
        capacity calls := by
  obtain ⟨client, reached, caches, offset, _⟩ := listingRun_eq serves opened capacity calls
  obtain ⟨after, called, _⟩ := call_eq buf serves caches (capacity calls)
  rw [offset] at called
  constructor
  · intro ⟨other, final, same, empty⟩
    rw [reached, Option.some.injEq] at same
    subst same
    rw [called, Option.some.injEq, Prod.mk.injEq] at empty
    exact empty.1
  · intro ended
    rw [ended] at called
    exact ⟨client, after, reached, called⟩

theorem small_of_complete {scheme : VirtioFsScheme}
    (opened : CachesListing id nodeid fh entries scheme 0)
    (serves : Serves server nodeid fh entries)
    (complete : CompleteListing server id buf scheme entries) :
    (entries.map HostEntry.encodedSize).sum ≤ 32768 := by
  -- a buffer that holds everything
  let room := ((entries.map HostEntry.shown).map buf.size).sum
  have large : ∀ entry ∈ entries, buf.size entry.shown ≤ room := by
    intro entry member
    exact List.single_le_sum (by simp) _ (List.mem_map_of_mem (List.mem_map_of_mem member))
  obtain ⟨calls, client, _, _, reached, perm⟩ := complete (fun _ => room) (by
    intro calls client entry _ next
    exact large entry (List.mem_of_getElem? next))
  obtain ⟨other, same, _, _, received⟩ := listingRun_eq serves opened (fun _ => room) calls
  rw [reached, Option.some.injEq] at same
  subst same
  obtain ⟨_, front, _⟩ := Paging.session_front
    (Paging.pageOf_contiguous buf ((listed entries).map HostEntry.shown))
    (by
      intro calls shown next
      obtain ⟨entry, inside, rfl⟩ := List.mem_map.mp (List.mem_of_getElem? next)
      exact large entry ((fitting_front 32768 entries).subset inside)) calls
  have count := perm.length_eq
  rw [received, front, List.length_take, List.length_map, List.length_map] at count
  have whole : listed entries = entries :=
    (fitting_front 32768 entries).eq_of_length_le (by
      unfold listed at count
      omega)
  exact fitting_eq_self_iff.mp whole

/-- A listing is complete exactly if the whole directory fits into the one request. -/
theorem getdents_complete_iff {scheme : VirtioFsScheme} {handle : Handle}
    (found : scheme.handles.lookup id = some handle) (directory : handle.isDir = true)
    (serves : Serves server handle.nodeid handle.fh entries) :
    CompleteListing server id buf scheme entries ↔
      (entries.map HostEntry.encodedSize).sum ≤ 32768 := by
  have opened : CachesListing id handle.nodeid handle.fh entries scheme 0 :=
    ⟨handle, found, directory, rfl, rfl, .inl rfl⟩
  constructor
  · exact small_of_complete opened serves
  · intro small capacity adequate
    have whole : listed entries = entries := fitting_eq_self_iff.mpr small
    have lossless := Paging.lossless_of_contiguous
      (Paging.pageOf_contiguous buf (entries.map HostEntry.shown))
    obtain ⟨calls, ended, first, received⟩ := lossless capacity (by
      intro calls shown next
      obtain ⟨client, reached, _, offset, _⟩ := listingRun_eq serves opened capacity calls
      rw [whole] at offset
      rw [← offset, List.getElem?_map] at next
      obtain ⟨entry, found, rfl⟩ := Option.map_eq_some_iff.mp next
      exact adequate calls client entry reached found)
    obtain ⟨client, reached, _, _, got⟩ := listingRun_eq serves opened capacity calls
    rw [whole] at got
    refine ⟨calls, client, ?_, ?_, reached, got ▸ received⟩
    · rw [listingEnded_iff serves opened, whole]
      exact ended
    · intro earlier before again
      rw [listingEnded_iff serves opened, whole] at again
      exact first earlier before again

end Cached

/-- A directory handle with number 3 on node 5, and the root's handle. -/
def openDirectory : VirtioFsScheme where
  effectiveMaxIo := 1048576
  nextId := 2
  handles := AList.singleton 1 ⟨5, 3, true, false, "pkgs".toList, 0, S_IFDIR, none⟩
  exchanges := []

/-- A host with one directory; any other request fails. -/
def listingServer (entries : List HostEntry) : FuseServer := fun _ request =>
  match request with
  | .readdir _ _ offset size =>
      .ok ((fitting size.toNat (afterCookie entries offset)).flatMap HostEntry.encode)
  | _ => .error (.fuseError (-38))

/-- The buffer of `redox_syscall`. -/
def listingBuf : DirentBuf where
  size := fun entry => Redox.syscallBuf.size (entry.name, entry.kind)
  sized := fun entry => Redox.syscallBuf.sized (entry.name, entry.kind)
  refused := fun room entry => Redox.syscallBuf.refused room (entry.name, entry.kind)

def binEntry : HostEntry := ⟨11, 1, 4, [98, 105, 110]⟩

theorem bin_listed :
    CompleteListing (listingServer [binEntry]) 1 listingBuf openDirectory [binEntry] :=
  (@getdents_complete_iff (listingServer [binEntry]) 1 listingBuf [binEntry] openDirectory
    ⟨5, 3, true, false, "pkgs".toList, 0, S_IFDIR, none⟩ rfl rfl (fun _ _ _ => rfl)).mpr (by decide)

/-- A thousand and twenty-five entries with names of eight bytes. -/
def manyEntries : List HostEntry := (List.range 1025).map fun index =>
  ⟨UInt64.ofNat (index + 20), UInt64.ofNat (index + 1), 8, [112, 107, 103, 45,
    UInt8.ofNat (48 + index / 1000 % 10), UInt8.ofNat (48 + index / 100 % 10),
    UInt8.ofNat (48 + index / 10 % 10), UInt8.ofNat (48 + index % 10)]⟩

/-- They take 32800 bytes, so the last one is never asked for. -/
theorem large_directory_cut :
    ¬ ∀ (server : FuseServer) (id : Nat) (buf : DirentBuf) (entries : List HostEntry)
        (scheme : VirtioFsScheme) (handle : Handle),
        scheme.handles.lookup id = some handle → handle.isDir = true →
        Serves server handle.nodeid handle.fh entries →
        CompleteListing server id buf scheme entries := by
  intro always
  have serves : Serves (listingServer manyEntries) 5 3 manyEntries := fun _ _ _ => rfl
  have opened : CachesListing 1 5 3 manyEntries openDirectory 0 :=
    ⟨⟨5, 3, true, false, "pkgs".toList, 0, S_IFDIR, none⟩, rfl, rfl, rfl, rfl, .inl rfl⟩
  have small := small_of_complete opened serves
    (always (listingServer manyEntries) 1 listingBuf manyEntries openDirectory
      ⟨5, 3, true, false, "pkgs".toList, 0, S_IFDIR, none⟩ rfl rfl serves)
  have sizes : manyEntries.map HostEntry.encodedSize = List.replicate 1025 32 := by
    rw [manyEntries, List.map_map, List.eq_replicate_iff]
    refine ⟨by simp, ?_⟩
    intro size member
    obtain ⟨index, _, rfl⟩ := List.mem_map.mp member
    show fuseDirentSize 8 = 32
    rfl
  rw [sizes, List.sum_replicate] at small
  exact absurd small (by decide)

end NixRedox.VirtioFs
