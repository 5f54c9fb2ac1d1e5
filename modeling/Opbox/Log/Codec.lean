import Opbox.Crdt.Materialize
import Opbox.Foundation.Text
import Opbox.Fs.Types

/-!
# Records of the shared log

How a message of the shared log becomes one record, or a pointer record with the parts of its
payload, and how it is read back (`log/codec.rs`, `log/encrypt.rs`, and the record handling of
`log/writer.rs` and `log/reader.rs`).  The S2 client, AES-GCM and the JSON of a pointer are
parameters with what the code relies on.
-/

namespace Opbox

/-! ## Messages and records -/

/-- `OffsetDateTime`, in UTC: a time of the years -9999 to 9999. -/
structure OffsetDateTime where
  /-- Nanoseconds since the Unix epoch. -/
  unixTimestampNanos : Int
  /-- The first time. -/
  lower : -377705116800000000000 ≤ unixTimestampNanos
  /-- The last time. -/
  upper : unixTimestampNanos ≤ 253402300799999999999
  deriving DecidableEq

/-- `OffsetDateTime::from_unix_timestamp_nanos`. -/
def OffsetDateTime.fromUnixTimestampNanos (nanos : Int) : Except String OffsetDateTime :=
  if h : -377705116800000000000 ≤ nanos ∧ nanos ≤ 253402300799999999999 then .ok ⟨nanos, h.1, h.2⟩
  else .error "timestamp must be in range"

/-- `SharedMessage` with its updates as the bytes that the log stores. -/
inductive LogMessage where
  /-- Yjs update bytes for the namespace document. -/
  | namespaceUpdate (yjsUpdate : Bytes)
  /-- Yjs update bytes for the document of a text object. -/
  | textObjectUpdate (objectId : ObjectId) (yjsUpdate : Bytes)
  /-- A whole binary object. -/
  | binaryObjectPut (objectId : ObjectId) (wallTime : OffsetDateTime) (writerId : DaemonWriterId)
      (blob : Bytes)
  deriving DecidableEq

/-- The serialized `SharedMessageKind`. -/
def LogMessage.kind : LogMessage → String
  | .namespaceUpdate _ => "namespace_update"
  | .textObjectUpdate _ _ => "text_update"
  | .binaryObjectPut _ _ _ _ => "binary_put"

/-- `payload`. -/
def LogMessage.payload : LogMessage → Bytes
  | .namespaceUpdate yjsUpdate => yjsUpdate
  | .textObjectUpdate _ yjsUpdate => yjsUpdate
  | .binaryObjectPut _ _ _ blob => blob

/-- A header of a record. -/
structure Header where
  /-- Its name. -/
  name : Bytes
  /-- Its value. -/
  value : Bytes
  deriving DecidableEq

/-- `Header::new`. -/
def Header.new (name : String) (value : Bytes) : Header := ⟨asciiBytes name.toList, value⟩

/-- `AppendRecord`, and the part of `SequencedRecord` that is read. -/
structure AppendRecord where
  /-- The headers. -/
  headers : List Header
  /-- The body. -/
  body : Bytes
  deriving DecidableEq

/-- `S2_MAX_RECORD_METERED_BYTES`. -/
def s2MaxRecordMeteredBytes : Nat := 1024 * 1024

/-- `MAX_INLINE_RECORD_SIZE`, in the simulation and outside of it. -/
def maxInlineRecordSize (sim : Bool) : Nat := if sim then 2 * 1024 else 1024 * 1024 - 1024

/-- The S2 client library: metering, validation and reading. -/
class S2Sdk where
  /-- `MeteredBytes::metered_bytes`. -/
  meteredBytes : AppendRecord → Nat
  /-- Eight bytes for a record, two for a header, and what they hold. -/
  meteredBytes_eq : ∀ record, meteredBytes record =
    8 + (record.headers.map fun h => 2 + h.name.length + h.value.length).sum + record.body.length
  /-- The check of `AppendRecord::new` and `with_headers`. -/
  validate : AppendRecord → Except String PUnit
  /-- Records within the limit whose headers are named pass. -/
  validate_ok : ∀ record, meteredBytes record ≤ s2MaxRecordMeteredBytes →
    (∀ h ∈ record.headers, h.name ≠ []) → validate record = .ok ⟨⟩
  /-- `AppendRecordBatch::try_from_iter`. -/
  batch : List AppendRecord → Except String (List AppendRecord)
  /-- One record within the limit is a batch. -/
  batch_ok : ∀ record, meteredBytes record ≤ s2MaxRecordMeteredBytes → batch [record] = .ok [record]
  /-- `StreamName::from_str`. -/
  streamName : List Char → Except String (List Char)
  /-- Names of at most 512 bytes are taken. -/
  streamName_ok : ∀ name, IsAscii name → name ≠ [] → name.length ≤ 512 → streamName name = .ok name
  /-- The batches of a read session from the first record on, with a limit on their number. -/
  readSession : List AppendRecord → Nat → List (List AppendRecord)
  /-- They hold the records in order. -/
  readSession_flatten : ∀ stream count, count ≤ stream.length →
    (readSession stream count).flatten = stream.take count

/-! ## Encryption -/

/-- `CipherKey`. -/
abbrev CipherKey := { bytes : Bytes // bytes.length = 32 }

/-- A nonce. -/
abbrev Nonce := { bytes : Bytes // bytes.length = 12 }

/-- AES-256-GCM. -/
class AesGcm where
  /-- `Aead::encrypt`. -/
  aeadEncrypt : CipherKey → Bytes → Bytes → Option Bytes
  /-- `Aead::decrypt`. -/
  aeadDecrypt : CipherKey → Bytes → Bytes → Option Bytes
  /-- Texts of at most 64 GiB, less two blocks, are encrypted. -/
  aeadEncrypt_isSome : ∀ key nonce plaintext, plaintext.length ≤ 2 ^ 36 - 32 →
    (aeadEncrypt key nonce plaintext).isSome = true
  /-- The tag takes 16 bytes. -/
  length_aeadEncrypt : ∀ key nonce plaintext ciphertext,
    aeadEncrypt key nonce plaintext = some ciphertext →
    ciphertext.length = plaintext.length + 16
  /-- Decryption inverts encryption. -/
  aeadDecrypt_aeadEncrypt : ∀ key nonce plaintext ciphertext,
    aeadEncrypt key nonce plaintext = some ciphertext →
    aeadDecrypt key nonce ciphertext = some plaintext

/-- `CIPHERTEXT_OVERHEAD_LEN`. -/
def ciphertextOverheadLen : Nat := 12 + 16

section Encrypt

variable [AesGcm]

/-- `encrypt`. -/
def encrypt (key : CipherKey) (nonce : Nonce) (plaintext : Bytes) : Except String Bytes :=
  match AesGcm.aeadEncrypt key nonce plaintext with
  | some ciphertext => .ok (nonce ++ ciphertext)
  | none => .error "encryption failed: aead::Error"

/-- `decrypt`. -/
def decrypt (key : CipherKey) (data : Bytes) : Except String Bytes :=
  if data.length < 12 then .error "decryption failed: ciphertext too short"
  else
    match AesGcm.aeadDecrypt key (data.take 12) (data.drop 12) with
    | some plaintext => .ok plaintext
    | none => .error "decryption failed (wrong key or corrupted data)"

end Encrypt

/-! ## Pointers -/

/-- `ObjectPointerId`. -/
abbrev ObjectPointerId := List Char

/-- `ObjectPointerId::generate`, from ten random bytes. -/
def ObjectPointerId.generate (idBytes : { bytes : Bytes // bytes.length = 10 }) : ObjectPointerId :=
  crockfordBase32Lower idBytes

/-- `ObjectPointer`. -/
structure ObjectPointer where
  /-- A random id. -/
  objectPointerId : ObjectPointerId
  /-- When the payload was split. -/
  creationTime : OffsetDateTime
  /-- The hash of the payload. -/
  checksum : UInt64
  /-- The length of the payload. -/
  sizeBytes : Nat
  /-- The number of parts. -/
  nRecords : Nat
  deriving DecidableEq

/-- `WorkspaceId`, as it is parsed or generated: 32 letters and digits. -/
structure WorkspaceId where
  /-- The characters. -/
  text : List Char
  /-- There are 32. -/
  length_eq : text.length = 32
  /-- They are letters and digits. -/
  alphanumeric : ∀ c ∈ text, c.toNat < 128 ∧ c.isAlphanum = true

/-- What the stream of a pointer is called. -/
def objectStreamText (workspaceId : WorkspaceId) (creationTime : OffsetDateTime)
    (id : ObjectPointerId) : List Char :=
  workspaceId.text ++ ("/objects/".toList ++
    (showInt creationTime.unixTimestampNanos ++ (':' :: id)))

/-- `stream_name`. -/
def ObjectPointer.streamName [S2Sdk] (pointer : ObjectPointer) (workspaceId : WorkspaceId) :
    Except String (List Char) :=
  S2Sdk.streamName (objectStreamText workspaceId pointer.creationTime pointer.objectPointerId)

/-- The pointer is one that is made for a payload: its id is generated, and its numbers are those of
a 64-bit machine. -/
structure ObjectPointer.Made (pointer : ObjectPointer) : Prop where
  /-- The id has 16 characters. -/
  id_length : pointer.objectPointerId.length = 16
  /-- They are ASCII. -/
  id_ascii : IsAscii pointer.objectPointerId
  /-- The length of the payload. -/
  size : pointer.sizeBytes < 2 ^ 64
  /-- The number of parts. -/
  records : pointer.nRecords < 2 ^ 64

/-- `serde_json` on pointers. -/
class PointerJson where
  /-- `to_string`. -/
  toString : ObjectPointer → Except String Bytes
  /-- `from_slice`. -/
  fromSlice : Bytes → Except String ObjectPointer
  /-- A pointer is written in a few hundred bytes and read back. -/
  fromSlice_toString : ∀ pointer : ObjectPointer, pointer.Made → ∃ json, toString pointer = .ok json ∧
    fromSlice json = .ok pointer ∧ json.length ≤ 512

/-- `xxh3_64`, as a number. -/
def payloadChecksum [Xxh3] (payload : Bytes) : UInt64 :=
  UInt64.ofNat ((Xxh3.xxh3_64 payload).foldl (fun n b => 256 * n + b.val) 0)

/-! ## Headers -/

/-- `header_value`. -/
def headerValue (headers : List Header) (name : String) : Option Bytes :=
  (headers.find? fun header => header.name = asciiBytes name.toList).map Header.value

/-- `header_str`. -/
def headerStr (headers : List Header) (name : String) : Except String (Option (List Char)) :=
  match headerValue headers name with
  | none => .ok none
  | some value =>
    match decodeUtf8 value with
    | some text => .ok (some text)
    | none => .error "invalid utf-8 sequence"

/-- The value of a header that must be there. -/
def requireHeader (value : Option Bytes) (missing : String) : Except String Bytes :=
  match value with
  | some value => .ok value
  | none => .error missing

/-- The text of a header that must be there. -/
def requireText (text : Option (List Char)) (missing : String) : Except String (List Char) :=
  match text with
  | some text => .ok text
  | none => .error missing

/-- The number that was parsed. -/
def requireNumber {N : Type} (number : Option N) : Except String N :=
  match number with
  | some n => .ok n
  | none => .error "invalid number"

/-- `encode_common_headers`. -/
def encodeCommonHeaders (msg : LogMessage) (origin : SharedMessageOrigin) : List Header :=
  [.new "message_kind" (asciiBytes msg.kind.toList),
    .new "daemon_writer_id" origin.daemonWriterId,
    .new "outbox_id" (asciiBytes (showNat origin.outboxId))] ++
  match msg with
  | .namespaceUpdate _ => []
  | .textObjectUpdate objectId _ => [.new "object_id" objectId]
  | .binaryObjectPut objectId wallTime writerId _ =>
    [.new "object_id" objectId, .new "writer_id" writerId,
      .new "wall_time_ns" (asciiBytes (showInt wallTime.unixTimestampNanos))]

/-- `decode_origin`. -/
def decodeOrigin (headers : List Header) : Except String SharedMessageOrigin := do
  let daemonWriterId ← requireHeader (headerValue headers "daemon_writer_id")
    "log record missing daemon_writer_id header"
  let text ← headerStr headers "outbox_id"
  let text ← requireText text "log record missing outbox_id header"
  let outboxId ← requireNumber (parseUnsigned (2 ^ 64 - 1) text)
  pure ⟨daemonWriterId, outboxId⟩

/-- `decode_object_id`. -/
def decodeObjectId (headers : List Header) : Except String ObjectId :=
  requireHeader (headerValue headers "object_id") "log record missing object_id header"

/-- `decode_daemon_writer_id`. -/
def decodeDaemonWriterId (headers : List Header) : Except String DaemonWriterId :=
  requireHeader (headerValue headers "writer_id") "log record missing writer_id header"

/-- The message of a kind with its payload. -/
def decodeAs (headers : List Header) (payload : Bytes) (kind : List Char) :
    Except String LogMessage :=
  if kind = "namespace_update".toList then pure (.namespaceUpdate payload)
  else if kind = "text_update".toList then do
    let objectId ← decodeObjectId headers
    pure (.textObjectUpdate objectId payload)
  else if kind = "binary_put".toList then do
    let objectId ← decodeObjectId headers
    let writerId ← decodeDaemonWriterId headers
    let text ← headerStr headers "wall_time_ns"
    let text ← requireText text "binary record missing wall_time_ns header"
    let nanos ← requireNumber (parseSigned (2 ^ 127 - 1) text)
    let wallTime ← OffsetDateTime.fromUnixTimestampNanos nanos
    pure (.binaryObjectPut objectId wallTime writerId payload)
  else
    let other := String.ofList kind
    .error s!"unknown log record message_kind header: {other}"

/-- `s2_payload_to_shared_message`. -/
def s2PayloadToSharedMessage (headers : List Header) (payload : Bytes) :
    Except String LogMessage := do
  let kind ← headerStr headers "message_kind"
  let kind ← requireText kind "log record missing message_kind header"
  decodeAs headers payload kind

/-! ## Packages -/

/-- `S2Package`. -/
inductive S2Package where
  /-- The message fits one record. -/
  | inlined (record : AppendRecord)
  /-- The payload is split. -/
  | pointer (pointerRecord : AppendRecord) (pointer : ObjectPointer) (parts : List AppendRecord)

/-- The loop that splits a payload; `fuel` is at least the number of bytes left. -/
def splitPayload (chunkSize : Nat) : Nat → Bytes → List Bytes
  | 0, _ => []
  | fuel + 1, payload =>
    if payload = [] then []
    else payload.take chunkSize :: splitPayload chunkSize fuel (payload.drop chunkSize)

section Package

variable [S2Sdk]

/-- `AppendRecord::new`. -/
def AppendRecord.new (body : Bytes) : Except String AppendRecord := do
  S2Sdk.validate ⟨[], body⟩
  pure ⟨[], body⟩

/-- `with_headers`. -/
def AppendRecord.withHeaders (record : AppendRecord) (headers : List Header) :
    Except String AppendRecord := do
  S2Sdk.validate ⟨headers, record.body⟩
  pure ⟨headers, record.body⟩

/-- `encrypted_record_metered_bytes`. -/
def encryptedRecordMeteredBytes (plaintextBodyLen : Nat) (headers : List Header) :
    Except String Nat := do
  let record ← AppendRecord.new []
  let headerRecord ← record.withHeaders headers
  pure (S2Sdk.meteredBytes headerRecord + plaintextBodyLen + ciphertextOverheadLen)

/-- The message fits one record: the size is checked before the headers are metered. -/
def fitsInline (sim : Bool) (payloadSize : Nat) (headers : List Header) : Except String Bool :=
  if payloadSize < maxInlineRecordSize sim then
    match encryptedRecordMeteredBytes payloadSize headers with
    | .ok size => .ok (decide (size ≤ s2MaxRecordMeteredBytes))
    | .error err => .error s!"inline record metered size check failed: {err}"
  else .ok false

variable [Xxh3] [PointerJson]

/-- `shared_to_s2_package`, with the random id and the time it takes. -/
def sharedToS2Package (sim : Bool) (idBytes : { bytes : Bytes // bytes.length = 10 })
    (now : OffsetDateTime) (msg : LogMessage) (origin : SharedMessageOrigin) :
    Except String S2Package := do
  let payload := msg.payload
  let pointerHeaders := encodeCommonHeaders msg origin
  let inlined ← fitsInline sim payload.length pointerHeaders
  if inlined then
    let record ← AppendRecord.new payload
    let record ← record.withHeaders pointerHeaders
    pure (.inlined record)
  else
    let parts ← (splitPayload (maxInlineRecordSize sim) payload.length payload).mapM
      AppendRecord.new
    let pointer : ObjectPointer :=
      ⟨.generate idBytes, now, payloadChecksum payload, payload.length, parts.length⟩
    let json ← PointerJson.toString pointer
    let record ← AppendRecord.new []
    let pointerRecord ← record.withHeaders (.new "pointer" json :: pointerHeaders)
    pure (.pointer pointerRecord pointer parts)

end Package

/-! ## The writer -/

section Writer

variable [S2Sdk] [AesGcm]

/-- `encrypt_record`. -/
def encryptRecord (key : CipherKey) (nonce : Nonce) (record : AppendRecord) :
    Except String AppendRecord := do
  let encryptedBody ← encrypt key nonce record.body
  let newRecord ← AppendRecord.new encryptedBody
  if record.headers = [] then pure newRecord
  else newRecord.withHeaders record.headers

/-- The loop of `upload_parts` from part `idx` on: every part is appended at its own position. -/
def uploadFrom (key : CipherKey) (nonces : Nat → Nonce) :
    Nat → List AppendRecord → List AppendRecord → Except String (List AppendRecord)
  | _, stream, [] => .ok stream
  | idx, stream, part :: parts => do
    let part ← encryptRecord key (nonces idx) part
    let batch ← S2Sdk.batch [part]
    if stream.length = idx then uploadFrom key nonces (idx + 1) (stream ++ batch) parts
    else throw "append condition failed: sequence number mismatch"

/-- The streams of the basin; one that does not exist is empty. -/
abbrev S2Basin := List Char → List AppendRecord

/-- What the writer leaves: the record for the log, the parts it has uploaded and the basin. -/
structure WrittenRecord where
  /-- The record that is appended to the log. -/
  record : AppendRecord
  /-- The records of the object stream. -/
  parts : List AppendRecord
  /-- The basin with the object stream. -/
  basin : S2Basin

/-- What `run_connected` does with a package; for a pointer this is `upload_parts`, whose pointer
record is then appended. -/
def writePackage (key : CipherKey) (nonces : Nat → Nonce) (workspaceId : WorkspaceId)
    (basin : S2Basin) : S2Package → Except String WrittenRecord
  | .inlined record => do
    let record ← encryptRecord key (nonces 0) record
    pure ⟨record, [], basin⟩
  | .pointer pointerRecord pointer parts => do
    let name ← pointer.streamName workspaceId
    let stream ← uploadFrom key nonces 0 (basin name) parts
    pure ⟨pointerRecord, stream, fun other => if other = name then stream else basin other⟩

end Writer

/-! ## The reader -/

section Reader

variable [S2Sdk] [AesGcm] [Xxh3] [PointerJson]

/-- The loop over the records of a read session: their number and the joined payload. -/
def joinParts (key : CipherKey) : Nat × Bytes → List AppendRecord → Except String (Nat × Bytes)
  | joined, [] => .ok joined
  | (recordCount, buf), record :: records => do
    let body ← decrypt key record.body
    joinParts key (recordCount + 1, buf ++ body) records

/-- `read_full_multipart`. -/
def readFullMultipart (key : CipherKey) (basin : S2Basin) (workspaceId : WorkspaceId)
    (messageHeaders : List Header) (objectPointer : ObjectPointer) : Except String LogMessage := do
  let _ ← headerStr messageHeaders "message_kind"
  let name ← objectPointer.streamName workspaceId
  let batches := S2Sdk.readSession (basin name) objectPointer.nRecords
  let (recordCount, buf) ← joinParts key (0, []) batches.flatten
  let expectedCount := objectPointer.nRecords
  let expectedSize := objectPointer.sizeBytes
  let size := buf.length
  if recordCount ≠ expectedCount then
    throw s!"multipart payload record count mismatch: expected {expectedCount}, got {recordCount}"
  else if size ≠ expectedSize then
    throw s!"multipart payload size mismatch: expected {expectedSize}, got {size}"
  else
    let checksum := payloadChecksum buf
    let expectedChecksum := objectPointer.checksum
    if checksum ≠ expectedChecksum then
      throw s!"multipart payload checksum mismatch: expected {expectedChecksum}, got {checksum}"
    else s2PayloadToSharedMessage messageHeaders buf

/-- What `run_connected` does with one record. -/
def readRecord (key : CipherKey) (basin : S2Basin) (workspaceId : WorkspaceId)
    (record : AppendRecord) : Except String (SharedMessageOrigin × LogMessage) := do
  let origin ← decodeOrigin record.headers
  match headerValue record.headers "pointer" with
  | some json =>
    let objectPointer ← PointerJson.fromSlice json
    let message ← readFullMultipart key basin workspaceId record.headers objectPointer
    pure (origin, message)
  | none =>
    let body ← decrypt key record.body
    let message ← s2PayloadToSharedMessage record.headers body
    pure (origin, message)

end Reader

end Opbox
