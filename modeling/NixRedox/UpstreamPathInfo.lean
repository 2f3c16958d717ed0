import NixRedox.EagerVerified
import NixRedox.Hex

set_option autoImplicit false

/- The NAR hash of a registration, from those who write it (`pathinfo.rs`, `local_cache.rs`)
to those who read it back (`to_upstream`, the lazy extraction). -/
namespace NixRedox.Upstream

open Cache (fromNarinfo)
open EagerFetch (plainRecord)
open Hex (HexLower IsDigit hexLower)
open Stored (normalizeHash)

/-- Store paths and signatures as `nix_compat` reads and writes them. -/
structure NixCompat (StorePath Signature : Type) where
  fromAbsolutePath : String → Except String StorePath
  toAbsolutePath : StorePath → String
  parseSignature : String → Except String Signature
  showSignature : Signature → String

/-- What is written is read back. -/
structure NixCompat.RoundTrips {StorePath Signature : Type}
    (nix : NixCompat StorePath Signature) : Prop where
  paths : ∀ path, nix.fromAbsolutePath (nix.toAbsolutePath path) = .ok path
  signatures : ∀ signature, nix.parseSignature (nix.showSignature signature) = .ok signature

/-- A SHA-256 digest. -/
abbrev Digest := { bytes : List UInt8 // bytes.length = 32 }

section Records

variable {StorePath Signature : Type} (nix : NixCompat StorePath Signature) (hex : HexLower)

/-- What is used of a `nix_compat::narinfo::NarInfo`. -/
structure NarInfo (StorePath Signature : Type) where
  narHash : Digest
  narSize : UInt64
  references : List StorePath
  deriver : Option StorePath
  signatures : List Signature

/-- A `snix_store::path_info::PathInfo`, without its placeholders `node` and `ca`. -/
structure UpstreamInfo (StorePath Signature : Type) where
  storePath : StorePath
  references : List StorePath
  narSize : UInt64
  narSha256 : Digest
  signatures : List Signature
  deriver : Option StorePath

/-- The texts that the fetchers take from a narinfo. -/
def NarInfo.texts (narinfo : NarInfo StorePath Signature) : Cache.NarInfo where
  narHash := hex.encode narinfo.narHash.1
  narSize := narinfo.narSize
  references := narinfo.references.map nix.toAbsolutePath
  deriver := narinfo.deriver.map nix.toAbsolutePath
  signatures := narinfo.signatures.map nix.showSignature

def NarInfo.upstream (narinfo : NarInfo StorePath Signature) (storePath : StorePath) :
    UpstreamInfo StorePath Signature where
  storePath := storePath
  references := narinfo.references
  narSize := narinfo.narSize
  narSha256 := narinfo.narHash
  signatures := narinfo.signatures
  deriver := narinfo.deriver

def fromUpstream (upstream : UpstreamInfo StorePath Signature) : PathInfo where
  storePath := nix.toAbsolutePath upstream.storePath
  narHash := "sha256:" ++ hex.encode upstream.narSha256.1
  narSize := upstream.narSize
  references := upstream.references.map nix.toAbsolutePath
  deriver := upstream.deriver.map nix.toAbsolutePath
  signatures := upstream.signatures.map nix.showSignature

/-- `str::strip_prefix("sha256:")`. -/
def stripSha256 (narHash : List Char) : Option (List Char) :=
  if "sha256:".toList.isPrefixOf narHash then some (narHash.drop "sha256:".toList.length)
  else none

def parseNarHash (narHash : String) : Except String Digest :=
  match stripSha256 narHash.toList with
  | none => .error ("nar_hash missing 'sha256:' prefix: " ++ narHash)
  | some digits =>
      match hex.decode digits with
      | .error reason => .error ("invalid hex in nar_hash: " ++ reason)
      | .ok bytes =>
          if sized : bytes.length = 32 then .ok ⟨bytes, sized⟩
          else .error s!"nar_hash is {bytes.length} bytes, expected 32"

/-- `map_err` with the text that was refused. -/
def refused {α : Type} (what text : String) (result : Except String α) : Except String α :=
  result.mapError fun reason => s!"invalid {what} '{text}': {reason}"

def toUpstream (info : PathInfo) : Except String (UpstreamInfo StorePath Signature) := do
  let storePath ← refused "store_path" info.storePath (nix.fromAbsolutePath info.storePath)
  let narSha256 ← parseNarHash hex info.narHash
  let references ← info.references.mapM fun text =>
    refused "reference" text (nix.fromAbsolutePath text)
  let deriver ← info.deriver.mapM fun text => refused "deriver" text (nix.fromAbsolutePath text)
  let signatures ← info.signatures.mapM fun text =>
    refused "signature" text (nix.parseSignature text)
  .ok ⟨storePath, references, info.narSize, narSha256, signatures, deriver⟩

end Records

section Readers

variable {StorePath Signature : Type} {nix : NixCompat StorePath Signature} {hex : HexLower}

theorem stripSha256_prefixed (digits : String) :
    stripSha256 ("sha256:" ++ digits).toList = some digits.toList := by
  rw [String.toList_append, stripSha256, if_pos (by simp), List.drop_left]

theorem not_isDigit : ¬ IsDigit 's' := by
  unfold IsDigit
  decide

/-- The digits of a hash do not look like its prefix. -/
theorem stripSha256_encode (digest : List UInt8) :
    stripSha256 (hex.encode digest).toList = none := by
  rw [stripSha256, if_neg]
  rw [List.isPrefixOf_iff_prefix]
  exact hex.not_prefix not_isDigit "ha256:".toList digest

theorem parseNarHash_prefixed (digest : Digest) :
    parseNarHash hex ("sha256:" ++ hex.encode digest.1) = .ok digest := by
  rw [parseNarHash, stripSha256_prefixed]
  dsimp only
  rw [hex.decode_encode]
  exact dif_pos digest.2

theorem parseNarHash_encode (digest : List UInt8) :
    parseNarHash hex (hex.encode digest) =
      .error ("nar_hash missing 'sha256:' prefix: " ++ hex.encode digest) := by
  rw [parseNarHash, stripSha256_encode]

theorem mapM_refused {α : Type} {write : α → String} {read : String → Except String α}
    (what : String) (back : ∀ value, read (write value) = .ok value) (values : List α) :
    (values.map write).mapM (fun text => refused what text (read text)) = .ok values := by
  induction values with
  | nil =>
      rfl
  | cons value rest ih =>
      rw [List.map_cons, List.mapM_cons, back, ih]
      rfl

/-- Metadata whose hash can be read goes back to the upstream record. -/
theorem toUpstream_of_texts (laws : nix.RoundTrips) {info : PathInfo} {digest : Digest}
    (hashed : parseNarHash hex info.narHash = .ok digest)
    (upstream : UpstreamInfo StorePath Signature)
    (path : info.storePath = nix.toAbsolutePath upstream.storePath)
    (references : info.references = upstream.references.map nix.toAbsolutePath)
    (deriver : info.deriver = upstream.deriver.map nix.toAbsolutePath)
    (signatures : info.signatures = upstream.signatures.map nix.showSignature) :
    toUpstream nix hex info =
      .ok { upstream with narSize := info.narSize, narSha256 := digest } := by
  have allReferences := mapM_refused "reference" laws.paths upstream.references
  have allSignatures := mapM_refused "signature" laws.signatures upstream.signatures
  have ownDeriver : (upstream.deriver.map nix.toAbsolutePath).mapM
      (fun text => refused "deriver" text (nix.fromAbsolutePath text)) =
        .ok upstream.deriver := by
    cases upstream.deriver with
    | none => rfl
    | some deriver =>
        rw [Option.map_some, Option.mapM_some, laws.paths]
        rfl
  rw [toUpstream, path, hashed, references, deriver, signatures, allReferences, ownDeriver,
    allSignatures, laws.paths]
  rfl

theorem normalizeHash_prefixed (digits : String) :
    normalizeHash ("sha256:" ++ digits).toList = digits.toList := by
  rw [String.toList_append, normalizeHash, if_pos (by simp), List.drop_left]

theorem normalizeHash_encode (digest : List UInt8) :
    normalizeHash (hex.encode digest).toList = (hex.encode digest).toList := by
  have bare := @stripSha256_encode hex digest
  rw [stripSha256] at bare
  split at bare
  · cases bare
  · rename_i other
    exact if_neg other

/-- Who writes the metadata of a path that a narinfo describes. -/
inductive Writer where
  | fetchRecursive
  | fetchLocal
  | fromUpstream

def Writer.record (nix : NixCompat StorePath Signature) (hex : HexLower) (writer : Writer)
    (narinfo : NarInfo StorePath Signature) (path : StorePath) : PathInfo :=
  match writer with
  | .fetchRecursive => fromNarinfo (narinfo.texts nix hex) (nix.toAbsolutePath path)
  | .fetchLocal => plainRecord (narinfo.texts nix hex) (nix.toAbsolutePath path)
  | .fromUpstream => Upstream.fromUpstream nix hex (narinfo.upstream path)

/-- Every reader makes the same digest of the metadata: the conversion to an upstream record,
and the extraction, which compares it in hex. -/
structure ReadBack (nix : NixCompat StorePath Signature) (hex : HexLower) (info : PathInfo)
    (digest : Digest) : Prop where
  parsed : parseNarHash hex info.narHash = .ok digest
  upstream : ∃ upstream, toUpstream nix hex info = .ok upstream ∧ upstream.narSha256 = digest
  normalized : normalizeHash info.narHash.toList = (hex.encode digest.1).toList

/-- The extraction finds the digest whoever has recorded it. -/
theorem Writer.record_normalized (writer : Writer) (narinfo : NarInfo StorePath Signature)
    (path : StorePath) :
    normalizeHash (writer.record nix hex narinfo path).narHash.toList =
      (hex.encode narinfo.narHash.1).toList := by
  cases writer with
  | fetchRecursive => exact normalizeHash_prefixed _
  | fetchLocal => exact normalizeHash_encode _
  | fromUpstream => exact normalizeHash_prefixed _

theorem Writer.record_readBack (laws : nix.RoundTrips) (writer : Writer)
    (narinfo : NarInfo StorePath Signature) (path : StorePath)
    (kept : (writer.record nix hex narinfo path).deriver = narinfo.deriver.map nix.toAbsolutePath)
    (hashed : (writer.record nix hex narinfo path).narHash =
      "sha256:" ++ hex.encode narinfo.narHash.1) :
    ReadBack nix hex (writer.record nix hex narinfo path) narinfo.narHash := by
  have parsed : parseNarHash hex (writer.record nix hex narinfo path).narHash =
      .ok narinfo.narHash := by
    rw [hashed]
    exact parseNarHash_prefixed narinfo.narHash
  have texts : (writer.record nix hex narinfo path).storePath = nix.toAbsolutePath path ∧
      (writer.record nix hex narinfo path).references =
        narinfo.references.map nix.toAbsolutePath ∧
      (writer.record nix hex narinfo path).signatures =
        narinfo.signatures.map nix.showSignature := by
    cases writer <;> exact ⟨rfl, rfl, rfl⟩
  have back : toUpstream nix hex (writer.record nix hex narinfo path) = _ :=
    toUpstream_of_texts laws parsed (narinfo.upstream path) texts.1 texts.2.1 kept texts.2.2
  exact ⟨parsed, ⟨_, back, rfl⟩, writer.record_normalized narinfo path⟩

/-- What is recorded of a narinfo is read back by every reader, except for what `fetch_local`
records. -/
theorem readBack_iff (laws : nix.RoundTrips) (writer : Writer)
    (narinfo : NarInfo StorePath Signature) (path : StorePath) :
    ReadBack nix hex (writer.record nix hex narinfo path) narinfo.narHash ↔
      writer ≠ .fetchLocal := by
  cases writer with
  | fetchRecursive =>
      exact iff_of_true (Writer.record_readBack laws .fetchRecursive narinfo path rfl rfl) nofun
  | fromUpstream =>
      exact iff_of_true (Writer.record_readBack laws .fromUpstream narinfo path rfl rfl) nofun
  | fetchLocal =>
      refine iff_of_false ?_ (not_not.mpr rfl)
      intro readBack
      have parsed := readBack.parsed
      have hashed : (Writer.fetchLocal.record nix hex narinfo path).narHash =
          hex.encode narinfo.narHash.1 := rfl
      rw [hashed, parseNarHash_encode] at parsed
      cases parsed

end Readers

section Example

/-- Store paths as their last components, and signatures as their texts. -/
def textNix : NixCompat (List Char) String where
  fromAbsolutePath text :=
    if "/nix/store/".toList.isPrefixOf text.toList then .ok (text.toList.drop 11)
    else .error "Missing store dir"
  toAbsolutePath path := String.ofList ("/nix/store/".toList ++ path)
  parseSignature := .ok
  showSignature signature := signature

theorem textNix_roundTrips : textNix.RoundTrips where
  paths path := by
    have front : "/nix/store/".toList.isPrefixOf ("/nix/store/".toList ++ path) = true := by simp
    simp only [textNix, String.toList_ofList]
    rw [if_pos front]
    have rest : ("/nix/store/".toList ++ path).drop "/nix/store/".toList.length = path :=
      List.drop_left
    exact congrArg Except.ok rest
  signatures _ := rfl

def emptyNarInfo : NarInfo (List Char) String where
  narHash := ⟨List.replicate 32 0xe3, rfl⟩
  narSize := 0
  references := []
  deriver := none
  signatures := []

def helloPath : List Char := "1b9p07z77phvv2hf6gm9f28syp39f1ag-hello-2.12.1".toList

theorem readBack_fetched :
    ReadBack textNix hexLower (Writer.fetchRecursive.record textNix hexLower emptyNarInfo helloPath)
      emptyNarInfo.narHash :=
  (readBack_iff textNix_roundTrips .fetchRecursive emptyNarInfo helloPath).mpr nofun

/-- The hash that `fetch_local` records has no prefix, and `parse_nar_hash` wants one. -/
theorem fetched_local_unreadable :
    ¬ ∀ writer : Writer, ReadBack textNix hexLower
      (writer.record textNix hexLower emptyNarInfo helloPath) emptyNarInfo.narHash := by
  intro all
  have parsed := (all .fetchLocal).parsed
  have hashed : (Writer.fetchLocal.record textNix hexLower emptyNarInfo helloPath).narHash =
      hexLower.encode emptyNarInfo.narHash.1 := rfl
  rw [hashed, parseNarHash_encode] at parsed
  cases parsed

end Example

end NixRedox.Upstream
