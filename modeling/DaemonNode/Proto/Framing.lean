import DaemonNode.Lib.Checks
import DaemonNode.Proto.Bytes

/-!
# The framing header of a genesis envelope

A frozen envelope travels behind a header of fixed width, from which a reader
learns whether it may go on to the payload. Every byte of the header is a
field of it, so that a reader accepts of every payload its own frames and no
other bytes.
-/

namespace DaemonNode.Framing

def genesisFrameMagic : List Byte := labelBytes "vhc-gen\x01"

def genesisFrameHeaderLen : Nat := 56

/-- The ceiling on a framed payload. -/
def genesisPayloadBytesMax : Nat := 4 * 1024 * 1024

def genesisFeatureExecutionRequirements : UInt32 := 1

/-- The reader features that are implemented. -/
def genesisSupportedFeatures : UInt32 := genesisFeatureExecutionRequirements

structure GenesisFrameHeader where
  (schemaMajor requiredFeatures : UInt32)
  payloadLen : UInt64
  payloadDigest : Hash

/-- A word in the hexadecimal form of the refusals. -/
def hexWord (word : UInt32) : String :=
  "0x" ++ String.ofList ((List.range 8).reverse.map fun place =>
    Nat.digitChar (word.toNat / 16 ^ place % 16))

namespace GenesisFrameHeader

/-- Build a header over a payload. -/
def forPayload (blake3 : List Byte → Hash) (schemaMajor requiredFeatures : UInt32)
    (payload : List Byte) : Except VhcProtoError GenesisFrameHeader :=
  if genesisPayloadBytesMax < payload.length then
    .error (.validation ("genesis payload is " ++ toString payload.length ++
      " bytes, above the framing ceiling " ++ toString genesisPayloadBytesMax))
  else
    .ok
      { schemaMajor
        requiredFeatures
        payloadLen := .ofNat payload.length
        payloadDigest := blake3 payload }

/-- The fixed-width encoding. -/
def encode (header : GenesisFrameHeader) : Bytes genesisFrameHeaderLen :=
  ⟨genesisFrameMagic ++ (toLeBytes 4 header.schemaMajor.toNat ++
      (toLeBytes 4 header.requiredFeatures.toNat ++
        (toLeBytes 8 header.payloadLen.toNat ++ header.payloadDigest.asBytes))), by
    simp only [List.length_append, length_toLeBytes]
    rw [Bytes.asBytes, header.payloadDigest.2]
    rfl⟩

/-- The fields of a header, each at its own place. -/
def fields (head : Bytes genesisFrameHeaderLen) : GenesisFrameHeader where
  schemaMajor := .ofNat (fromLeBytes ((head.1.drop 8).take 4))
  requiredFeatures := .ofNat (fromLeBytes ((head.1.drop 12).take 4))
  payloadLen := .ofNat (fromLeBytes ((head.1.drop 16).take 8))
  payloadDigest := ⟨(head.1.drop 24).take 32, by simp [head.2, genesisFrameHeaderLen]⟩

/-- Read the header from the front, without touching the payload. -/
def peek (bytes : List Byte) : Except VhcProtoError GenesisFrameHeader :=
  if enough : genesisFrameHeaderLen ≤ bytes.length then
    let head : Bytes genesisFrameHeaderLen :=
      ⟨bytes.take genesisFrameHeaderLen, List.length_take_of_le enough⟩
    if head.1.take 8 ≠ genesisFrameMagic then
      .error (.validation "framed genesis does not carry the framing magic")
    else .ok (fields head)
  else
    .error (.validation ("framed genesis is shorter than its " ++
      toString genesisFrameHeaderLen ++ "-byte header"))

/-- Whether a reader may go on to the payload. -/
def accept (header : GenesisFrameHeader) (implementedMajor : UInt32) :
    Except VhcProtoError Unit :=
  let unknown := header.requiredFeatures &&& ~~~genesisSupportedFeatures
  if header.schemaMajor ≠ implementedMajor then
    .error (.validation ("genesis schema major " ++ toString header.schemaMajor ++
      " is not the major this build implements (" ++ toString implementedMajor ++ ")"))
  else if unknown ≠ 0 then
    .error (.validation ("genesis requires reader features " ++ hexWord unknown ++
      " this build does not implement"))
  else if genesisPayloadBytesMax < header.payloadLen.toNat then
    .error (.validation ("genesis payload length " ++ toString header.payloadLen ++
      " is above the framing ceiling " ++ toString genesisPayloadBytesMax))
  else .ok ()

end GenesisFrameHeader

open GenesisFrameHeader

section Frames

variable (blake3 : List Byte → Hash)

/-- Prepend a framing header to a payload. -/
def frame (schemaMajor requiredFeatures : UInt32) (payload : List Byte) :
    Except VhcProtoError (List Byte) := do
  let header ← forPayload blake3 schemaMajor requiredFeatures payload
  .ok (header.encode.asBytes ++ payload)

/-- Check the framing and return the payload. -/
def unframe (bytes : List Byte) (implementedMajor : UInt32) :
    Except VhcProtoError (List Byte) := do
  let header ← peek bytes
  header.accept implementedMajor
  if bytes.length < genesisFrameHeaderLen then
    .error (.validation "framed genesis has no payload")
  else
    let payload := bytes.drop genesisFrameHeaderLen
    if payload.length ≠ header.payloadLen.toNat then
      .error (.validation ("framed genesis carries " ++ toString payload.length ++
        " payload bytes; its header declares " ++ toString header.payloadLen))
    else if blake3 payload ≠ header.payloadDigest then
      .error (.validation
        "framed genesis payload does not match the digest its header declares")
    else .ok payload

end Frames

namespace GenesisFrameHeader

/-- The fields of an encoded header are the header's. -/
theorem fields_encode (header : GenesisFrameHeader) : fields header.encode = header := by
  obtain ⟨major, features, long, digest, sized⟩ := header
  have magic : genesisFrameMagic.length = 8 := rfl
  simp [fields, encode, Bytes.asBytes, magic, sized, List.drop_append, List.drop_eq_nil_of_le,
    List.take_of_length_le, fromLeBytes_toLeBytes, Nat.mod_eq_of_lt major.toNat_lt,
    Nat.mod_eq_of_lt features.toNat_lt, Nat.mod_eq_of_lt long.toNat_lt]

/-- A header with the magic is the encoding of its fields. -/
theorem encode_fields {head : Bytes genesisFrameHeaderLen}
    (magic : head.1.take 8 = genesisFrameMagic) : (fields head).encode = head := by
  have length : head.1.length = 56 := head.2
  have word (place count : Nat) (inside : place + count ≤ 56) :
      toLeBytes count (fromLeBytes ((head.1.drop place).take count) % 256 ^ count) =
        (head.1.drop place).take count := by
    apply toLeBytes_fromLeBytes_mod
    rw [List.length_take, List.length_drop]
    omega
  have join (place count : Nat) :
      (head.1.drop place).take count ++ head.1.drop (place + count) = head.1.drop place := by
    rw [← List.drop_drop, List.take_append_drop]
  have digest : (head.1.drop 24).take 32 = head.1.drop 24 :=
    List.take_of_length_le (by simp [length])
  apply Subtype.ext
  calc (fields head).encode.1
      = head.1.take 8 ++ ((head.1.drop 8).take 4 ++ ((head.1.drop 12).take 4 ++
          ((head.1.drop 16).take 8 ++ head.1.drop 24))) := by
        rw [magic, ← digest, ← word 8 4 (by decide), ← word 12 4 (by decide),
          ← word 16 8 (by decide), encode, fields]
        simp only [UInt32.toNat_ofNat', UInt64.toNat_ofNat']
        rfl
    _ = head.1 := by
        rw [join 16 8, join 12 4, join 8 4, List.take_append_drop]

/-- A header is read from the bytes that start with its encoding. -/
theorem peek_eq_ok_iff :
    peek bytes = .ok header ↔ ∃ payload, bytes = header.encode.asBytes ++ payload := by
  constructor
  · intro read
    unfold peek at read
    split at read
    · rename_i enough
      obtain ⟨magic, read⟩ := Checks.refuse_eq_ok_iff.mp read
      cases read
      refine ⟨bytes.drop genesisFrameHeaderLen, ?_⟩
      rw [encode_fields (not_not.mp magic)]
      exact (List.take_append_drop _ _).symm
    · cases read
  · rintro ⟨payload, rfl⟩
    have front : (header.encode.asBytes ++ payload).take genesisFrameHeaderLen =
        header.encode.1 := List.take_left' header.encode.2
    have enough : genesisFrameHeaderLen ≤ (header.encode.asBytes ++ payload).length := by
      simp [Bytes.asBytes, header.encode.2]
    have magic : header.encode.1.take 8 = genesisFrameMagic := List.take_left' rfl
    rw [peek, dif_pos enough]
    simp only [front, magic, not_true, if_false, ne_eq]
    exact congrArg Except.ok (fields_encode header)

theorem accept_eq_ok_iff : accept header major = .ok () ↔
    header.schemaMajor = major ∧ header.requiredFeatures &&& ~~~genesisSupportedFeatures = 0 ∧
      header.payloadLen.toNat ≤ genesisPayloadBytesMax := by
  simp only [accept, Checks.refuse_eq_ok_iff, not_not, Nat.not_lt, and_true]

end GenesisFrameHeader

variable {blake3 : List Byte → Hash}

theorem frame_eq_ok_iff : frame blake3 major features payload = .ok bytes ↔
    payload.length ≤ genesisPayloadBytesMax ∧
      (encode ⟨major, features, .ofNat payload.length, blake3 payload⟩).asBytes ++ payload =
        bytes := by
  simp [frame, forPayload, Checks.bind_eq_ok_iff]

/-- Behind a header that is accepted stands a payload of its length and digest. -/
theorem unframe_append_eq_ok_iff {header : GenesisFrameHeader} :
    unframe blake3 (header.encode.asBytes ++ rest) major = .ok payload ↔
      header.accept major = .ok () ∧ rest.length = header.payloadLen.toNat ∧
        blake3 rest = header.payloadDigest ∧ rest = payload := by
  have behind : (header.encode.asBytes ++ rest).drop genesisFrameHeaderLen = rest :=
    List.drop_left' header.encode.2
  have enough : ¬(header.encode.asBytes ++ rest).length < genesisFrameHeaderLen := by
    simp [Bytes.asBytes, header.encode.2]
  rw [unframe, peek_eq_ok_iff.mpr ⟨rest, rfl⟩]
  simp only [Checks.bind_eq_ok_iff, behind, enough, Unique.exists_iff, Except.ok.injEq,
    exists_eq_left', if_false, Checks.refuse_eq_ok_iff, not_not]

/-- A payload comes back from its frame if its features are implemented and it is
within the ceiling; and accepted bytes are the frame of the payload they return. -/
theorem frame_unframe (blake3 : List Byte → Hash) (major : UInt32) :
    (∀ features payload,
      (frame blake3 major features payload >>= fun bytes => unframe blake3 bytes major) =
          .ok payload ↔
        features &&& ~~~genesisSupportedFeatures = 0 ∧
          payload.length ≤ genesisPayloadBytesMax) ∧
    ∀ bytes payload, unframe blake3 bytes major = .ok payload ↔
      ∃ header, peek bytes = .ok header ∧ header.accept major = .ok () ∧
        frame blake3 header.schemaMajor header.requiredFeatures payload = .ok bytes := by
  refine ⟨fun features payload => ?_, fun bytes payload => ⟨fun returned => ?_, ?_⟩⟩
  · rw [Checks.bind_eq_ok_iff]
    constructor
    · rintro ⟨bytes, framed, returned⟩
      obtain ⟨within, rfl⟩ := frame_eq_ok_iff.mp framed
      have accepted := (unframe_append_eq_ok_iff.mp returned).1
      exact ⟨(accept_eq_ok_iff.mp accepted).2.1, within⟩
    · rintro ⟨implemented, within⟩
      have long := UInt64.toNat_ofNat_of_lt' (within.trans_lt (by decide))
      exact ⟨_, frame_eq_ok_iff.mpr ⟨within, rfl⟩, unframe_append_eq_ok_iff.mpr
        ⟨accept_eq_ok_iff.mpr ⟨rfl, implemented, long.trans_le within⟩, long.symm, rfl, rfl⟩⟩
  · obtain ⟨header, read, _⟩ := Checks.bind_eq_ok_iff.mp returned
    obtain ⟨rest, rfl⟩ := peek_eq_ok_iff.mp read
    obtain ⟨accepted, long, digest, rfl⟩ := unframe_append_eq_ok_iff.mp returned
    have within := (accept_eq_ok_iff.mp accepted).2.2
    refine ⟨header, read, accepted, frame_eq_ok_iff.mpr ⟨long.trans_le within, ?_⟩⟩
    rw [long, digest, UInt64.ofNat_toNat]
  · rintro ⟨header, read, accepted, framed⟩
    obtain ⟨within, rfl⟩ := frame_eq_ok_iff.mp framed
    have pinned := Except.ok.inj (read.symm.trans (peek_eq_ok_iff.mpr ⟨payload, rfl⟩))
    exact unframe_append_eq_ok_iff.mpr ⟨(congrArg (accept · major) pinned).symm.trans accepted,
      (UInt64.toNat_ofNat_of_lt' (within.trans_lt (by decide))).symm, rfl, rfl⟩

end DaemonNode.Framing
