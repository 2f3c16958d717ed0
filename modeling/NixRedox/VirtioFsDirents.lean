import NixRedox.VirtioFsListing

set_option autoImplicit false

/- `parse_dirents` on any bytes: whole listings, listings that are cut off, and what is neither. -/
namespace NixRedox.VirtioFs

/-- An entry with a UTF-8 name whose length has room in its field. -/
structure NamedEntry where
  ino : UInt64
  off : UInt64
  typ : UInt32
  name : List Char
  short : (Bytes.utf8 name).length < 2 ^ 32

namespace NamedEntry

def host (entry : NamedEntry) : HostEntry :=
  ⟨entry.ino, entry.off, entry.typ, Bytes.utf8 entry.name⟩

def decoded (entry : NamedEntry) : DirEntry := ⟨entry.ino, entry.off, entry.typ, entry.name⟩

theorem parsed_host (entry : NamedEntry) : entry.host.parsed = entry.decoded := by
  rw [HostEntry.parsed, host, Bytes.fromUtf8Lossy_utf8]
  rfl

end NamedEntry

/-- The encodings of entries, one after the other. -/
def wire (entries : List NamedEntry) : List UInt8 :=
  entries.flatMap (fun entry => entry.host.encode)

/-- Header and name of an entry are among the first bytes. -/
def CompleteWithin (entries : List NamedEntry) (size index : Nat) : Prop :=
  ∃ entry, entries[index]? = some entry ∧
    (wire (entries.take index)).length + direntHeader + entry.host.name.length ≤ size

section Checked

/-- How the loop could go wrong. -/
inductive ReadFault where
  | outside
  | unfinished
  deriving DecidableEq

/-- Bytes of the input, where they all are. -/
def bytesAt (data : List UInt8) (offset width : Nat) : Except ReadFault (List UInt8) :=
  if offset + width ≤ data.length then
    .ok ((data.drop offset).take width)
  else
    .error .outside

def fieldAt (data : List UInt8) (offset width : Nat) : Except ReadFault Nat :=
  (bytesAt data offset width).map Bytes.littleEndian

/-- The loop of `parse_dirents` over offsets, with every access to the input checked. -/
def parseDirentsAt (data : List UInt8) : Nat → Nat → Except ReadFault (List DirEntry)
  | 0, _ => .error .unfinished
  | rounds + 1, offset =>
      if offset + direntHeader ≤ data.length then do
        let ino ← fieldAt data offset 8
        let off ← fieldAt data (offset + 8) 8
        let namelen ← fieldAt data (offset + 16) 4
        let typ ← fieldAt data (offset + 20) 4
        let nameStart := offset + direntHeader
        let nameEnd := nameStart + namelen
        if data.length < nameEnd then
          .ok []
        else do
          let name ← bytesAt data nameStart namelen
          let rest ← parseDirentsAt data rounds (offset + fuseDirentSize namelen)
          .ok ({ ino := UInt64.ofNat ino
                 off := UInt64.ofNat off
                 typ := UInt32.ofNat typ
                 name := Bytes.fromUtf8Lossy name } :: rest)
      else
        .ok []

end Checked

section Rounds

theorem fuseDirentSize_ge (namelen : Nat) : direntHeader + namelen ≤ fuseDirentSize namelen := by
  unfold fuseDirentSize
  omega

/-- More rounds than bytes change nothing. -/
theorem parseDirentsUpTo_enough {fuel more : Nat} {data : List UInt8}
    (enough : data.length ≤ fuel) (also : data.length ≤ more) :
    parseDirentsUpTo fuel data = parseDirentsUpTo more data := by
  induction fuel generalizing more data with
  | zero =>
      have empty : data = [] := List.eq_nil_of_length_eq_zero (by omega)
      subst empty
      cases more with
      | zero => rfl
      | succ more => simp [parseDirentsUpTo, direntHeader]
  | succ fuel ih =>
      cases more with
      | zero =>
          have empty : data = [] := List.eq_nil_of_length_eq_zero (by omega)
          subst empty
          simp [parseDirentsUpTo, direntHeader]
      | succ more =>
          have shorter : (data.drop (fuseDirentSize (numberAt data 16 4))).length ≤
              data.length - 1 := by
            have large := fuseDirentSize_ge (numberAt data 16 4)
            unfold direntHeader at large
            rw [List.length_drop]
            omega
          unfold parseDirentsUpTo
          dsimp only
          rw [@ih more (data.drop (fuseDirentSize (numberAt data 16 4))) (by omega) (by omega)]

/-- The parser takes one entry and goes on behind its padding. -/
theorem parseDirents_step (data : List UInt8) :
    parseDirents data =
      if direntHeader ≤ data.length then
        if direntHeader + numberAt data 16 4 ≤ data.length then
          { ino := UInt64.ofNat (numberAt data 0 8)
            off := UInt64.ofNat (numberAt data 8 8)
            typ := UInt32.ofNat (numberAt data 20 4)
            name := Bytes.fromUtf8Lossy ((data.drop direntHeader).take (numberAt data 16 4)) } ::
          parseDirents (data.drop (fuseDirentSize (numberAt data 16 4)))
        else
          []
      else
        [] := by
  have more : parseDirents data = parseDirentsUpTo (data.length + 1) data :=
    parseDirentsUpTo_enough le_rfl (by omega)
  rw [more, parseDirentsUpTo]
  dsimp only
  rw [@parseDirentsUpTo_enough _ (data.drop (fuseDirentSize (numberAt data 16 4))).length _
    (by simp) le_rfl, ← parseDirents]

end Rounds

section Safety

theorem bytesAt_inside {data : List UInt8} {offset width : Nat}
    (inside : offset + width ≤ data.length) :
    bytesAt data offset width = .ok ((data.drop offset).take width) := if_pos inside

/-- A field at an offset is the field of what stands from a place before it on. -/
theorem fieldAt_inside {data : List UInt8} {start offset width : Nat}
    (inside : start + offset + width ≤ data.length) :
    fieldAt data (start + offset) width = .ok (numberAt (data.drop start) offset width) := by
  rw [fieldAt, bytesAt_inside inside, numberAt, List.drop_drop]
  rfl

/-- With more rounds than bytes are left, the loop ends, and no access is outside. -/
theorem parseDirentsAt_eq {data : List UInt8} {rounds offset : Nat}
    (enough : data.length - offset < rounds) :
    parseDirentsAt data rounds offset = .ok (parseDirents (data.drop offset)) := by
  induction rounds generalizing offset with
  | zero => omega
  | succ rounds ih =>
      rw [parseDirents_step, List.length_drop]
      unfold parseDirentsAt
      by_cases header : offset + direntHeader ≤ data.length
      · have room := header
        unfold direntHeader at room
        have ino := @fieldAt_inside data offset 0 8 (by omega)
        have off := @fieldAt_inside data offset 8 8 (by omega)
        have namelen := @fieldAt_inside data offset 16 4 (by omega)
        have typ := @fieldAt_inside data offset 20 4 (by omega)
        rw [Nat.add_zero] at ino
        rw [if_pos header, if_pos (by omega), ino, off, namelen, typ]
        dsimp only [bind, Except.bind]
        by_cases name : offset + direntHeader + numberAt (data.drop offset) 16 4 ≤ data.length
        · have further := @ih (offset + fuseDirentSize (numberAt (data.drop offset) 16 4))
            (by
              have large := fuseDirentSize_ge (numberAt (data.drop offset) 16 4)
              unfold direntHeader at large
              omega)
          rw [if_neg (by omega), if_pos (by omega), bytesAt_inside name, further, List.drop_drop,
            List.drop_drop]
        · rw [if_pos (by omega), if_neg (by omega)]
      · have cut : ¬ direntHeader ≤ data.length - offset := by
          unfold direntHeader at header ⊢
          omega
        rw [if_neg header, if_neg cut]

end Safety

section Truncated

theorem wire_cons (entry : NamedEntry) (rest : List NamedEntry) :
    wire (entry :: rest) = entry.host.encode ++ wire rest := List.flatMap_cons

/-- A whole entry at the front is decoded. -/
theorem parseDirents_encode (entry : NamedEntry) (rest : List UInt8) :
    parseDirents (entry.host.encode ++ rest) = entry.decoded :: parseDirents rest := by
  have size := length_encode entry.host
  have large := encodedSize_ge entry.host
  unfold direntHeader at large
  have more : parseDirents (entry.host.encode ++ rest) =
      parseDirentsUpTo (rest.length + entry.host.encodedSize - 1 + 1) (entry.host.encode ++ rest) :=
    parseDirentsUpTo_enough le_rfl (by rw [List.length_append]; omega)
  rw [more, parseDirentsUpTo_encode entry.host rest _ entry.short, entry.parsed_host,
    @parseDirentsUpTo_enough _ rest.length _ (by omega) le_rfl, ← parseDirents]

/-- Of an entry that is cut off in its padding, header and name are there. -/
theorem parseDirents_cut {entry : NamedEntry} {size : Nat}
    (cut : size < entry.host.encodedSize) :
    parseDirents (entry.host.encode.take size) =
      if direntHeader + entry.host.name.length ≤ size then [entry.decoded] else [] := by
  have short : (entry.host.encode.take size).length = size := by
    rw [List.length_take, length_encode]
    omega
  by_cases header : direntHeader ≤ size
  · have front := entry.host.length_header
    have layout : entry.host.encode.take size = entry.host.header ++
        (entry.host.name ++ entry.host.padding).take (size - direntHeader) := by
      rw [HostEntry.encode_eq, List.append_assoc, List.take_append, front,
        List.take_of_length_le (by omega)]
    have tail : ((entry.host.name ++ entry.host.padding).take (size - direntHeader)).length =
        size - direntHeader := by
      have both := congrArg List.length layout
      rw [short, List.length_append, front] at both
      omega
    have gone :
        (entry.host.encode.take size).drop (fuseDirentSize entry.host.name.length) = [] := by
      rw [List.drop_eq_nil_iff, short]
      exact le_of_lt cut
    have more : parseDirents (entry.host.encode.take size) =
        parseDirentsUpTo (size + 1) (entry.host.encode.take size) :=
      parseDirentsUpTo_enough le_rfl (by omega)
    rw [more, layout, parseDirentsUpTo_header entry.host _ size entry.short, ← layout, gone, tail]
    by_cases named : direntHeader + entry.host.name.length ≤ size
    · have name : ((entry.host.name ++ entry.host.padding).take (size - direntHeader)).take
          entry.host.name.length = entry.host.name := by
        rw [List.take_take, Nat.min_eq_left (by omega), List.take_left]
      rw [if_pos (by omega), if_pos named, name, ← entry.parsed_host]
      cases size <;> rfl
    · rw [if_neg (by omega), if_neg named]
  · rw [parseDirents_step, short, if_neg header, if_neg (by omega)]

theorem completeWithin_zero {entry : NamedEntry} {rest : List NamedEntry} {size : Nat} :
    CompleteWithin (entry :: rest) size 0 ↔ direntHeader + entry.host.name.length ≤ size := by
  simp [CompleteWithin, wire]

theorem completeWithin_succ {entry : NamedEntry} {rest : List NamedEntry} {size index : Nat} :
    CompleteWithin (entry :: rest) size (index + 1) ↔ entry.host.encodedSize ≤ size ∧
      CompleteWithin rest (size - entry.host.encodedSize) index := by
  have length := length_encode entry.host
  simp only [CompleteWithin, List.getElem?_cons_succ, List.take_succ_cons, wire_cons,
    List.length_append, length]
  constructor
  · rintro ⟨other, there, inside⟩
    exact ⟨by omega, other, there, by omega⟩
  · rintro ⟨fits, other, there, inside⟩
    exact ⟨other, there, by omega⟩

/-- Of a listing that is cut off, the entries whose header and name are there are decoded. -/
theorem parseDirents_take (entries : List NamedEntry) (size : Nat) :
    ∃ count, parseDirents ((wire entries).take size) =
        (entries.take count).map NamedEntry.decoded ∧
      ∀ index, index < count ↔ CompleteWithin entries size index := by
  induction entries generalizing size with
  | nil =>
      refine ⟨0, ?_, ?_⟩
      · simp [wire, parseDirents, parseDirentsUpTo]
      · intro index
        simp [CompleteWithin]
  | cons entry rest ih =>
      have length := length_encode entry.host
      rw [wire_cons, List.take_append, length]
      by_cases whole : entry.host.encodedSize ≤ size
      · obtain ⟨count, parsed, complete⟩ := ih (size - entry.host.encodedSize)
        refine ⟨count + 1, ?_, ?_⟩
        · rw [List.take_of_length_le (by omega), parseDirents_encode, parsed]
          rfl
        · intro index
          cases index with
          | zero =>
              have large := encodedSize_ge entry.host
              rw [completeWithin_zero]
              omega
          | succ index =>
              rw [completeWithin_succ, ← complete index]
              omega
      · have none : size - entry.host.encodedSize = 0 := by omega
        rw [none, List.take_zero, List.append_nil, parseDirents_cut (by omega)]
        by_cases named : direntHeader + entry.host.name.length ≤ size
        · refine ⟨1, by rw [if_pos named]; rfl, ?_⟩
          intro index
          cases index with
          | zero =>
              rw [completeWithin_zero]
              omega
          | succ index =>
              rw [completeWithin_succ]
              omega
        · refine ⟨0, by rw [if_neg named]; rfl, ?_⟩
          intro index
          cases index with
          | zero =>
              rw [completeWithin_zero]
              omega
          | succ index =>
              rw [completeWithin_succ]
              omega

/-- The whole listing is decoded, of a listing that is cut off everything that is complete, and
the loop over any bytes ends within them. -/
theorem parseDirents_faithful (entries : List NamedEntry) (size : Nat) (data : List UInt8) :
    parseDirents (wire entries) = entries.map NamedEntry.decoded ∧
    (∃ count, parseDirents ((wire entries).take size) =
        (entries.take count).map NamedEntry.decoded ∧
      ∀ index, index < count ↔ CompleteWithin entries size index) ∧
    parseDirentsAt data (data.length + 1) 0 = .ok (parseDirents data) := by
  refine ⟨?_, parseDirents_take entries size, ?_⟩
  · induction entries with
    | nil => rfl
    | cons entry rest ih => rw [wire_cons, parseDirents_encode, ih, List.map_cons]
  · exact parseDirentsAt_eq (by omega)

end Truncated

end NixRedox.VirtioFs
