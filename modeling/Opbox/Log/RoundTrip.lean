import Opbox.Crdt.ConflictNames
import Opbox.Log.Codec

/-!
# What the writer writes, the reader reads

Every message comes back from its record, or from its pointer and its parts, and no record is larger
than the log takes.
-/

namespace Opbox

/-! ## Headers -/

section Headers

variable {msg : LogMessage} {origin : SharedMessageOrigin}

/-- The ids of a message and its origin. -/
def LogMessage.idsLength (msg : LogMessage) (origin : SharedMessageOrigin) : Nat :=
  origin.daemonWriterId.length +
    match msg with
    | .namespaceUpdate _ => 0
    | .textObjectUpdate objectId _ => objectId.length
    | .binaryObjectPut objectId _ writerId _ => objectId.length + writerId.length

/-- What the headers count for. -/
def headersSize (headers : List Header) : Nat :=
  (headers.map fun h => 2 + h.name.length + h.value.length).sum

@[simp] theorem headersSize_nil : headersSize [] = 0 := rfl

@[simp] theorem headersSize_cons (h : Header) (headers : List Header) :
    headersSize (h :: headers) = 2 + h.name.length + h.value.length + headersSize headers := by
  simp [headersSize]

theorem headerValue_cons_self {name : String} {value : Bytes} {headers : List Header} :
    headerValue (.new name value :: headers) name = some value := by
  simp [headerValue, Header.new]

theorem headerValue_cons_of_ne {name other : String} {value : Bytes} {headers : List Header}
    (h : asciiBytes other.toList ≠ asciiBytes name.toList) :
    headerValue (.new other value :: headers) name = headerValue headers name := by
  simp [headerValue, Header.new, h]

theorem headerStr_of_value {headers : List Header} {name : String} {text : List Char}
    (h : headerValue headers name = some (asciiBytes text)) (htext : IsAscii text) :
    headerStr headers name = .ok (some text) := by
  rw [headerStr, h]
  simp only [decodeUtf8_asciiBytes htext]

/-- The names of the headers. -/
def headerNames : List String :=
  ["pointer", "message_kind", "daemon_writer_id", "outbox_id", "object_id", "writer_id", "wall_time_ns"]

/-- The lengths of the names. -/
theorem lengths_headerNames :
    headerNames.map (fun name => name.toList.length) = [7, 12, 16, 9, 9, 9, 12] := by
  decide +kernel

theorem eq_of_asciiBytes_headerNames : ∀ a ∈ headerNames, ∀ b ∈ headerNames,
    asciiBytes a.toList = asciiBytes b.toList → a = b := by
  decide +kernel

/-- Different names are different bytes. -/
theorem headerNames_apart {a b : String} (h : a ∈ headerNames ∧ b ∈ headerNames ∧ a ≠ b) :
    asciiBytes a.toList ≠ asciiBytes b.toList :=
  fun heq => h.2.2 (eq_of_asciiBytes_headerNames a h.1 b h.2.1 heq)

/-- No name is empty. -/
theorem headerNames_ne_nil {name : String} (h : name ∈ headerNames) :
    asciiBytes name.toList ≠ [] := by
  intro hnil
  have hlength : name.toList.length = 0 := by rw [← length_asciiBytes, hnil]; rfl
  have hmem : 0 ∈ headerNames.map fun name => name.toList.length := List.mem_map.mpr ⟨name, h, hlength⟩
  rw [lengths_headerNames] at hmem
  revert hmem
  decide

/-- The kinds of messages are ASCII, of these lengths, and different. -/
theorem kinds_ascii :
    (IsAscii "namespace_update".toList ∧ IsAscii "text_update".toList ∧ IsAscii "binary_put".toList) ∧
    ("namespace_update".toList.length = 16 ∧ "text_update".toList.length = 11 ∧
      "binary_put".toList.length = 10) ∧
    "text_update".toList ≠ "namespace_update".toList ∧
      "binary_put".toList ≠ "namespace_update".toList ∧ "binary_put".toList ≠ "text_update".toList := by
  decide +kernel

theorem isAscii_kind (msg : LogMessage) : IsAscii msg.kind.toList := by
  obtain ⟨⟨h1, h2, h3⟩, -⟩ := kinds_ascii
  cases msg with
  | namespaceUpdate => exact h1
  | textObjectUpdate => exact h2
  | binaryObjectPut => exact h3

/-- No common header is a pointer. -/
theorem headerValue_pointer (msg : LogMessage) (origin : SharedMessageOrigin) :
    headerValue (encodeCommonHeaders msg origin) "pointer" = none := by
  cases msg with
  | namespaceUpdate yjsUpdate =>
    show headerValue (_ :: _ :: _ :: []) _ = _
    rw [headerValue_cons_of_ne, headerValue_cons_of_ne, headerValue_cons_of_ne]
    · rfl
    all_goals exact headerNames_apart (by simp [headerNames])
  | textObjectUpdate objectId yjsUpdate =>
    show headerValue (_ :: _ :: _ :: _ :: []) _ = _
    rw [headerValue_cons_of_ne, headerValue_cons_of_ne, headerValue_cons_of_ne,
      headerValue_cons_of_ne]
    · rfl
    all_goals exact headerNames_apart (by simp [headerNames])
  | binaryObjectPut objectId wallTime writerId blob =>
    show headerValue (_ :: _ :: _ :: _ :: _ :: _ :: []) _ = _
    rw [headerValue_cons_of_ne, headerValue_cons_of_ne, headerValue_cons_of_ne,
      headerValue_cons_of_ne, headerValue_cons_of_ne, headerValue_cons_of_ne]
    · rfl
    all_goals exact headerNames_apart (by simp [headerNames])

/-- The headers are the common ones, with or without a pointer. -/
def CarriesHeaders (headers : List Header) (msg : LogMessage) (origin : SharedMessageOrigin) : Prop :=
  ∀ name : String, asciiBytes "pointer".toList ≠ asciiBytes name.toList →
    headerValue headers name = headerValue (encodeCommonHeaders msg origin) name

theorem carriesHeaders_common : CarriesHeaders (encodeCommonHeaders msg origin) msg origin :=
  fun _ _ => rfl

theorem carriesHeaders_pointer (msg : LogMessage) (origin : SharedMessageOrigin) (json : Bytes) :
    CarriesHeaders (.new "pointer" json :: encodeCommonHeaders msg origin) msg origin :=
  fun _ hne => headerValue_cons_of_ne hne

/-- The kind of the message. -/
theorem CarriesHeaders.kind {headers : List Header} (h : CarriesHeaders headers msg origin) :
    headerStr headers "message_kind" = .ok (some msg.kind.toList) := by
  refine headerStr_of_value ?_ (isAscii_kind msg)
  rw [h "message_kind" (headerNames_apart (by simp [headerNames]))]
  exact headerValue_cons_self

/-- The origin comes back. -/
theorem CarriesHeaders.decodeOrigin {headers : List Header} (h : CarriesHeaders headers msg origin)
    (houtbox : origin.outboxId < 2 ^ 64) : decodeOrigin headers = .ok origin := by
  have hwriter : headerValue headers "daemon_writer_id" = some origin.daemonWriterId := by
    rw [h "daemon_writer_id" (headerNames_apart (by simp [headerNames]))]
    show headerValue (_ :: _ :: _) _ = _
    rw [headerValue_cons_of_ne]
    · exact headerValue_cons_self
    · exact headerNames_apart (by simp [headerNames])
  have hid : headerStr headers "outbox_id" = .ok (some (showNat origin.outboxId)) := by
    refine headerStr_of_value ?_ (isAscii_showNat _)
    rw [h "outbox_id" (headerNames_apart (by simp [headerNames]))]
    show headerValue (_ :: _ :: _ :: _) _ = _
    rw [headerValue_cons_of_ne, headerValue_cons_of_ne]
    · exact headerValue_cons_self
    all_goals exact headerNames_apart (by simp [headerNames])
  rw [Opbox.decodeOrigin, hwriter, hid]
  simp only [requireHeader, requireText, bind, Except.bind,
    parseUnsigned_showNat (Nat.le_sub_one_of_lt houtbox), requireNumber]
  rfl

theorem fromUnixTimestampNanos_eq (t : OffsetDateTime) :
    OffsetDateTime.fromUnixTimestampNanos t.unixTimestampNanos = .ok t := by
  rw [OffsetDateTime.fromUnixTimestampNanos, dif_pos ⟨t.lower, t.upper⟩]

/-- The object id of a message that has one. -/
theorem CarriesHeaders.objectId {headers : List Header} {rest : List Header} {id : ObjectId}
    (h : CarriesHeaders headers msg origin)
    (hrest : encodeCommonHeaders msg origin =
      .new "message_kind" (asciiBytes msg.kind.toList) ::
        .new "daemon_writer_id" origin.daemonWriterId ::
        .new "outbox_id" (asciiBytes (showNat origin.outboxId)) :: .new "object_id" id :: rest) :
    decodeObjectId headers = .ok id := by
  rw [decodeObjectId, h "object_id" (headerNames_apart (by simp [headerNames])), hrest, headerValue_cons_of_ne,
    headerValue_cons_of_ne, headerValue_cons_of_ne, headerValue_cons_self]
  · rfl
  all_goals exact headerNames_apart (by simp [headerNames])

theorem decodeAs_text {headers : List Header} {payload : Bytes} {objectId : ObjectId}
    (hid : decodeObjectId headers = .ok objectId) :
    decodeAs headers payload "text_update".toList = .ok (.textObjectUpdate objectId payload) := by
  obtain ⟨-, -, hne, -⟩ := kinds_ascii
  rw [decodeAs, if_neg hne, if_pos rfl, hid]
  rfl

theorem decodeAs_binary {headers : List Header} {payload : Bytes} {objectId : ObjectId}
    {writerId : DaemonWriterId} {wallTime : OffsetDateTime}
    (hid : decodeObjectId headers = .ok objectId)
    (hwriter : decodeDaemonWriterId headers = .ok writerId)
    (hwall : headerStr headers "wall_time_ns" = .ok (some (showInt wallTime.unixTimestampNanos))) :
    decodeAs headers payload "binary_put".toList =
      .ok (.binaryObjectPut objectId wallTime writerId payload) := by
  obtain ⟨-, -, -, hne, hne'⟩ := kinds_ascii
  have hlow : -((2 ^ 127 - 1 : Nat) + 1 : Int) ≤ wallTime.unixTimestampNanos :=
    le_trans (by decide) wallTime.lower
  have hhigh : wallTime.unixTimestampNanos ≤ (2 ^ 127 - 1 : Nat) :=
    wallTime.upper.trans (by decide)
  rw [decodeAs, if_neg hne, if_neg hne', if_pos rfl, hid, hwriter, hwall]
  show (requireNumber (parseSigned (2 ^ 127 - 1) (showInt wallTime.unixTimestampNanos)) >>= _) = _
  rw [parseSigned_showInt hlow hhigh]
  show (OffsetDateTime.fromUnixTimestampNanos wallTime.unixTimestampNanos >>= _) = _
  rw [fromUnixTimestampNanos_eq]
  rfl

/-- The message comes back from its headers and its payload. -/
theorem CarriesHeaders.decodeMessage {headers : List Header}
    (h : CarriesHeaders headers msg origin) :
    s2PayloadToSharedMessage headers msg.payload = .ok msg := by
  have hpeel : s2PayloadToSharedMessage headers msg.payload =
      decodeAs headers msg.payload msg.kind.toList := by
    rw [s2PayloadToSharedMessage, h.kind]
    rfl
  rw [hpeel]
  cases msg with
  | namespaceUpdate yjsUpdate => exact if_pos rfl
  | textObjectUpdate objectId yjsUpdate => exact decodeAs_text (h.objectId rfl)
  | binaryObjectPut objectId wallTime writerId blob =>
    refine decodeAs_binary (h.objectId rfl) ?_ ?_
    · rw [decodeDaemonWriterId, h "writer_id" (headerNames_apart (by simp [headerNames]))]
      show requireHeader (headerValue (_ :: _ :: _ :: _ :: _ :: _) _) _ = _
      rw [headerValue_cons_of_ne, headerValue_cons_of_ne, headerValue_cons_of_ne,
        headerValue_cons_of_ne, headerValue_cons_self]
      · rfl
      all_goals exact headerNames_apart (by simp [headerNames])
    · refine headerStr_of_value ?_ (isAscii_showInt _)
      rw [h "wall_time_ns" (headerNames_apart (by simp [headerNames]))]
      show headerValue (_ :: _ :: _ :: _ :: _ :: _ :: _) _ = _
      rw [headerValue_cons_of_ne, headerValue_cons_of_ne, headerValue_cons_of_ne,
        headerValue_cons_of_ne, headerValue_cons_of_ne, headerValue_cons_self]
      all_goals exact headerNames_apart (by simp [headerNames])

/-- The common headers without the ids take less than 200 bytes. -/
theorem headersSize_common (msg : LogMessage) (origin : SharedMessageOrigin)
    (houtbox : origin.outboxId < 2 ^ 64) :
    headersSize (encodeCommonHeaders msg origin) ≤ 200 + msg.idsLength origin := by
  have hid : (showNat origin.outboxId).length ≤ 20 :=
    length_showNat_le (by decide) (houtbox.trans (by decide))
  obtain ⟨-, ⟨hnamespace, htext, hbinary⟩, -⟩ := kinds_ascii
  have hkind : msg.kind.toList.length ≤ 16 := by
    cases msg with
    | namespaceUpdate => exact hnamespace.le
    | textObjectUpdate => exact htext.le.trans (by decide)
    | binaryObjectPut => exact hbinary.le.trans (by decide)
  have hlengths := lengths_headerNames
  simp only [headerNames, List.map_cons, List.map_nil, List.cons.injEq, and_true] at hlengths
  obtain ⟨-, h1, h2, h3, h4, h5, h6⟩ := hlengths
  cases msg with
  | namespaceUpdate yjsUpdate =>
    rw [encodeCommonHeaders, List.append_nil]
    simp only [headersSize_cons, headersSize_nil, Header.new, length_asciiBytes, h1, h2, h3,
      LogMessage.idsLength]
    omega
  | textObjectUpdate objectId yjsUpdate =>
    rw [encodeCommonHeaders, List.cons_append, List.cons_append, List.cons_append, List.nil_append]
    simp only [headersSize_cons, headersSize_nil, Header.new, length_asciiBytes, h1, h2, h3, h4,
      LogMessage.idsLength]
    omega
  | binaryObjectPut objectId wallTime writerId blob =>
    have hwall : (showInt wallTime.unixTimestampNanos).length ≤ 24 + 1 := by
      have hlow := wallTime.lower
      have hhigh := wallTime.upper
      exact length_showInt_le (by decide) (by omega)
    rw [encodeCommonHeaders, List.cons_append, List.cons_append, List.cons_append, List.nil_append]
    simp only [headersSize_cons, headersSize_nil, Header.new, length_asciiBytes, h1, h2, h3, h4, h5,
      h6, LogMessage.idsLength]
    omega

end Headers

/-! ## Encryption -/

section Encryption

variable [AesGcm]

/-- A text of ordinary length is encrypted with 28 bytes more, and decrypted again. -/
theorem encrypt_ok (key : CipherKey) (nonce : Nonce) {plaintext : Bytes}
    (h : plaintext.length ≤ 2 ^ 20) :
    ∃ data, encrypt key nonce plaintext = .ok data ∧
      data.length = plaintext.length + ciphertextOverheadLen ∧
      decrypt key data = .ok plaintext := by
  obtain ⟨ciphertext, hsome⟩ := Option.isSome_iff_exists.mp
    (AesGcm.aeadEncrypt_isSome key nonce.val plaintext (h.trans (by decide)))
  have hlength := AesGcm.length_aeadEncrypt _ _ _ _ hsome
  refine ⟨nonce.val ++ ciphertext, ?_, ?_, ?_⟩
  · rw [encrypt, hsome]
  · rw [List.length_append, nonce.property, hlength, ciphertextOverheadLen]
    omega
  · have hnot : ¬(nonce.val ++ ciphertext).length < 12 := by
      rw [List.length_append, nonce.property]
      omega
    rw [decrypt, if_neg hnot, List.take_left' nonce.property, List.drop_left' nonce.property,
      AesGcm.aeadDecrypt_aeadEncrypt _ _ _ _ hsome]

end Encryption

/-! ## Splitting -/

/-- A payload is its parts. -/
theorem flatten_splitPayload {chunkSize fuel : Nat} {payload : Bytes} (hchunk : 0 < chunkSize)
    (hfuel : payload.length ≤ fuel) : (splitPayload chunkSize fuel payload).flatten = payload := by
  induction fuel generalizing payload with
  | zero =>
    rw [List.length_eq_zero_iff.mp (Nat.le_zero.mp hfuel)]
    rfl
  | succ fuel ih =>
    rw [splitPayload]
    split_ifs with hnil
    · exact hnil.symm
    · have hpos : 0 < payload.length := List.length_pos_of_ne_nil hnil
      have hdrop : (payload.drop chunkSize).length ≤ fuel := by
        rw [List.length_drop]
        omega
      rw [List.flatten_cons, ih hdrop, List.take_append_drop]

/-- Every part fits a record. -/
theorem length_le_of_mem_splitPayload {chunkSize fuel : Nat} {payload part : Bytes}
    (h : part ∈ splitPayload chunkSize fuel payload) : part.length ≤ chunkSize := by
  induction fuel generalizing payload with
  | zero => cases h
  | succ fuel ih =>
    rw [splitPayload] at h
    split_ifs at h
    · cases h
    · rcases List.mem_cons.mp h with rfl | h
      · exact List.length_take_le _ _
      · exact ih h

/-- There are no more parts than bytes. -/
theorem length_splitPayload_le {chunkSize fuel : Nat} {payload : Bytes} :
    (splitPayload chunkSize fuel payload).length ≤ fuel := by
  induction fuel generalizing payload with
  | zero => exact le_rfl
  | succ fuel ih =>
    rw [splitPayload]
    split_ifs
    · exact Nat.zero_le _
    · exact Nat.succ_le_succ ih

theorem maxInlineRecordSize_pos (sim : Bool) : 0 < maxInlineRecordSize sim := by
  cases sim <;> decide

theorem maxInlineRecordSize_le (sim : Bool) :
    maxInlineRecordSize sim + 1024 ≤ s2MaxRecordMeteredBytes := by
  cases sim <;> decide

/-! ## Records -/

section Records

/-- All headers have names. -/
def Named (headers : List Header) : Prop := ∀ h ∈ headers, h.name ≠ []

theorem named_common (msg : LogMessage) (origin : SharedMessageOrigin) :
    Named (encodeCommonHeaders msg origin) := by
  unfold Named encodeCommonHeaders
  rw [List.forall_mem_append]
  refine ⟨?_, ?_⟩
  · simp only [List.forall_mem_cons]
    exact ⟨headerNames_ne_nil (by simp [headerNames]), headerNames_ne_nil (by simp [headerNames]),
      headerNames_ne_nil (by simp [headerNames]), fun _ h => by cases h⟩
  · cases msg with
    | namespaceUpdate => exact fun _ h => by cases h
    | textObjectUpdate =>
      exact List.forall_mem_cons.mpr
        ⟨headerNames_ne_nil (by simp [headerNames]), fun _ h => by cases h⟩
    | binaryObjectPut =>
      simp only [List.forall_mem_cons]
      exact ⟨headerNames_ne_nil (by simp [headerNames]), headerNames_ne_nil (by simp [headerNames]),
        headerNames_ne_nil (by simp [headerNames]), fun _ h => by cases h⟩

variable [S2Sdk]

theorem meteredBytes_eq_headersSize (headers : List Header) (body : Bytes) :
    S2Sdk.meteredBytes ⟨headers, body⟩ = 8 + headersSize headers + body.length :=
  S2Sdk.meteredBytes_eq _

theorem AppendRecord.new_ok {body : Bytes} (h : 8 + body.length ≤ s2MaxRecordMeteredBytes) :
    AppendRecord.new body = .ok ⟨[], body⟩ := by
  have hvalid : S2Sdk.validate ⟨[], body⟩ = .ok ⟨⟩ := by
    refine S2Sdk.validate_ok _ ?_ fun h hh => by cases hh
    rw [meteredBytes_eq_headersSize]
    exact h
  rw [AppendRecord.new, hvalid]
  rfl

theorem AppendRecord.withHeaders_ok {headers headers' : List Header} {body : Bytes}
    (h : 8 + headersSize headers' + body.length ≤ s2MaxRecordMeteredBytes) (hnamed : Named headers') :
    AppendRecord.withHeaders ⟨headers, body⟩ headers' = .ok ⟨headers', body⟩ := by
  have hvalid : S2Sdk.validate ⟨headers', body⟩ = .ok ⟨⟩ := by
    refine S2Sdk.validate_ok _ ?_ hnamed
    rw [meteredBytes_eq_headersSize]
    exact h
  rw [AppendRecord.withHeaders, hvalid]
  rfl

theorem encryptedRecordMeteredBytes_ok {size : Nat} {headers : List Header}
    (h : 8 + headersSize headers ≤ s2MaxRecordMeteredBytes) (hnamed : Named headers) :
    encryptedRecordMeteredBytes size headers =
      .ok (8 + headersSize headers + size + ciphertextOverheadLen) := by
  have hnew : AppendRecord.new [] = .ok ⟨[], []⟩ := AppendRecord.new_ok (by decide)
  rw [encryptedRecordMeteredBytes, hnew]
  have hwith : AppendRecord.withHeaders ⟨[], []⟩ headers = .ok ⟨headers, []⟩ :=
    AppendRecord.withHeaders_ok h hnamed
  show (AppendRecord.withHeaders ⟨[], []⟩ headers >>= _) = _
  rw [hwith]
  show Except.ok (S2Sdk.meteredBytes ⟨headers, []⟩ + size + ciphertextOverheadLen) = _
  rw [meteredBytes_eq_headersSize]
  rfl

/-- What the size check decides. -/
theorem fitsInline_ok (sim : Bool) (size : Nat) {headers : List Header}
    (h : 8 + headersSize headers ≤ s2MaxRecordMeteredBytes) (hnamed : Named headers) :
    fitsInline sim size headers = .ok (decide (size < maxInlineRecordSize sim ∧
      8 + headersSize headers + size + ciphertextOverheadLen ≤ s2MaxRecordMeteredBytes)) := by
  unfold fitsInline
  rw [encryptedRecordMeteredBytes_ok h hnamed]
  by_cases hsize : size < maxInlineRecordSize sim
  · rw [if_pos hsize]
    simp only [hsize, true_and]
  · rw [if_neg hsize]
    simp only [hsize, false_and, decide_false]

theorem mapM_new_ok {bodies : List Bytes}
    (h : ∀ body ∈ bodies, 8 + body.length ≤ s2MaxRecordMeteredBytes) :
    bodies.mapM AppendRecord.new = .ok (bodies.map (AppendRecord.mk [])) := by
  induction bodies with
  | nil => rfl
  | cons body bodies ih =>
    obtain ⟨hbody, hbodies⟩ := List.forall_mem_cons.mp h
    rw [List.mapM_cons, AppendRecord.new_ok hbody, ih hbodies]
    rfl

variable [AesGcm]

/-- A record with room for the overhead is encrypted; its headers stay, and its body comes back. -/
theorem encryptRecord_ok (key : CipherKey) (nonce : Nonce) (record : AppendRecord)
    (hnamed : Named record.headers)
    (h : 8 + headersSize record.headers + record.body.length + ciphertextOverheadLen ≤
      s2MaxRecordMeteredBytes) :
    ∃ encrypted, encryptRecord key nonce record = .ok encrypted ∧
      encrypted.headers = record.headers ∧
      S2Sdk.meteredBytes encrypted ≤ s2MaxRecordMeteredBytes ∧
      decrypt key encrypted.body = .ok record.body := by
  have hbody : record.body.length ≤ 2 ^ 20 := by
    have hmax : s2MaxRecordMeteredBytes = 2 ^ 20 := rfl
    omega
  obtain ⟨data, hdata, hlength, hdecrypt⟩ := encrypt_ok key nonce hbody
  refine ⟨⟨record.headers, data⟩, ?_, rfl, ?_, hdecrypt⟩
  · have hnew : AppendRecord.new data = .ok ⟨[], data⟩ := AppendRecord.new_ok (by omega)
    rw [encryptRecord, hdata]
    show (AppendRecord.new data >>= _) = _
    rw [hnew]
    show (if record.headers = [] then _ else _) = _
    split_ifs with hnil
    · rw [hnil]
      rfl
    · exact AppendRecord.withHeaders_ok (by omega) hnamed
  · rw [meteredBytes_eq_headersSize]
    show 8 + headersSize record.headers + data.length ≤ _
    omega

/-- A body that encrypts to a record. -/
structure EncryptedPart (key : CipherKey) (body : Bytes) (encrypted : AppendRecord) : Prop where
  /-- The record is within the limit. -/
  metered : S2Sdk.meteredBytes encrypted ≤ s2MaxRecordMeteredBytes
  /-- The body comes back. -/
  decrypted : decrypt key encrypted.body = .ok body

/-- Parts that fit are appended to the stream one after the other. -/
theorem uploadFrom_ok (key : CipherKey) (nonces : Nat → Nonce) {bodies : List Bytes}
    (h : ∀ body ∈ bodies, 8 + body.length + ciphertextOverheadLen ≤ s2MaxRecordMeteredBytes)
    (stream : List AppendRecord) :
    ∃ uploaded, uploadFrom key nonces stream.length stream (bodies.map (AppendRecord.mk [])) =
        .ok (stream ++ uploaded) ∧
      List.Forall₂ (EncryptedPart key) bodies uploaded := by
  induction bodies generalizing stream with
  | nil => exact ⟨[], by rw [List.append_nil]; rfl, .nil⟩
  | cons body bodies ih =>
    obtain ⟨hbody, hbodies⟩ := List.forall_mem_cons.mp h
    have hnamed : Named ([] : List Header) := fun _ hh => by cases hh
    obtain ⟨encrypted, hencrypted, -, hmetered, hdecrypt⟩ :=
      encryptRecord_ok key (nonces stream.length) ⟨[], body⟩ hnamed hbody
    obtain ⟨uploaded, hrest, hparts⟩ := ih hbodies (stream ++ [encrypted])
    refine ⟨encrypted :: uploaded, ?_, .cons ⟨hmetered, hdecrypt⟩ hparts⟩
    rw [List.map_cons, uploadFrom, hencrypted]
    show (S2Sdk.batch [encrypted] >>= _) = _
    rw [S2Sdk.batch_ok _ hmetered]
    show (if stream.length = stream.length then _ else _) = _
    rw [if_pos rfl]
    rw [List.length_append, List.length_singleton, List.append_assoc, List.singleton_append] at hrest
    exact hrest

theorem metered_of_mem_uploaded {key : CipherKey} {bodies : List Bytes}
    {records : List AppendRecord} (h : List.Forall₂ (EncryptedPart key) bodies records) :
    ∀ record ∈ records, S2Sdk.meteredBytes record ≤ s2MaxRecordMeteredBytes := by
  induction h with
  | nil => exact fun _ h => by cases h
  | cons hpart _ ih => exact List.forall_mem_cons.mpr ⟨hpart.metered, ih⟩

/-- The parts are joined to the payload. -/
theorem joinParts_ok {key : CipherKey} {bodies : List Bytes} {records : List AppendRecord}
    (h : List.Forall₂ (EncryptedPart key) bodies records) (recordCount : Nat) (buf : Bytes) :
    joinParts key (recordCount, buf) records =
      .ok (recordCount + records.length, buf ++ bodies.flatten) := by
  induction h generalizing recordCount buf with
  | nil => simp [joinParts]
  | cons hpart hparts ih =>
    rw [joinParts, hpart.decrypted]
    show joinParts key (recordCount + 1, buf ++ _) _ = _
    rw [ih, List.length_cons, List.flatten_cons, List.append_assoc]
    congr 2
    omega

end Records

/-! ## Pointers -/

section Pointers

theorem length_base32Digits (bits : List Bool) :
    (base32Digits bits).length = (bits.length + 4) / 5 := by
  induction bits using base32Digits.induct with
  | case1 a b c d e bits ih =>
    rw [base32Digits, List.length_cons, ih]
    simp only [List.length_cons]
    omega
  | case2 => rfl
  | case3 bits hlong hne =>
    rw [base32Digits.eq_3 bits hlong hne, List.length_singleton]
    rcases bits with _ | ⟨a, _ | ⟨b, _ | ⟨c, _ | ⟨d, _ | ⟨e, bits⟩⟩⟩⟩⟩
    · exact absurd rfl hne
    · simp
    · simp
    · simp
    · simp
    · exact absurd rfl (hlong a b c d e bits)

theorem isAscii_base32Digits (bits : List Bool) : IsAscii (base32Digits bits) := by
  have hall : (crockfordAlphabet.all fun c => decide (c.toNat < 128)) = true := by
    rw [crockfordAlphabet_eq]
    rfl
  have hdigit : ∀ n, (crockfordAlphabet.getD n '0').toNat < 128 := by
    intro n
    rw [List.getD_eq_getElem?_getD]
    cases hn : crockfordAlphabet[n]? with
    | none => decide
    | some c => exact of_decide_eq_true (List.all_eq_true.mp hall c (List.mem_of_getElem? hn))
  induction bits using base32Digits.induct with
  | case1 a b c d e bits ih =>
    rw [base32Digits]
    exact List.forall_mem_cons.mpr ⟨hdigit _, ih⟩
  | case2 => exact fun _ h => by cases h
  | case3 bits hlong hne =>
    rw [base32Digits.eq_3 bits hlong hne]
    exact List.forall_mem_singleton.mpr (hdigit _)

/-- A generated id has 16 characters, as it asserts. -/
theorem length_generate (idBytes : { bytes : Bytes // bytes.length = 10 }) :
    (ObjectPointerId.generate idBytes).length = 16 := by
  have hbits : (idBytes.val.flatMap byteBits).length = 80 := by
    have hbyte : ∀ b : Fin 256, (byteBits b).length = 8 := fun b => rfl
    rw [List.length_flatMap]
    simp [hbyte, idBytes.property]
  rw [ObjectPointerId.generate, crockfordBase32Lower, length_base32Digits, hbits]

theorem isAscii_append {text text' : List Char} (h : IsAscii text) (h' : IsAscii text') :
    IsAscii (text ++ text') := List.forall_mem_append.mpr ⟨h, h'⟩

theorem objects_ascii : "/objects/".toList.length = 9 ∧ IsAscii "/objects/".toList := by decide +kernel

theorem objectStreamText_ok [S2Sdk] (workspaceId : WorkspaceId) (now : OffsetDateTime)
    {id : ObjectPointerId} (hlength : id.length = 16) (hascii : IsAscii id) :
    S2Sdk.streamName (objectStreamText workspaceId now id) =
      .ok (objectStreamText workspaceId now id) := by
  obtain ⟨hobjects, hascii'⟩ := objects_ascii
  have hnanos : (showInt now.unixTimestampNanos).length ≤ 24 + 1 := by
    have hlow := now.lower
    have hhigh := now.upper
    exact length_showInt_le (by decide) (by omega)
  have htext : (objectStreamText workspaceId now id).length =
      58 + (showInt now.unixTimestampNanos).length := by
    rw [objectStreamText]
    simp only [List.length_append, workspaceId.length_eq, hobjects, List.length_cons, hlength]
    omega
  refine S2Sdk.streamName_ok _ ?_ (List.ne_nil_of_length_pos (by omega)) (by omega)
  refine isAscii_append (fun c hc => (workspaceId.alphanumeric c hc).1) ?_
  refine isAscii_append hascii' (isAscii_append (isAscii_showInt _) ?_)
  exact List.forall_mem_cons.mpr ⟨by decide, hascii⟩

end Pointers

/-! ## The round trip -/

section RoundTrip

variable [S2Sdk] [AesGcm] [Xxh3] [PointerJson]

/-- What a message needs for its records to be within the limit: its ids and the other headers fit a
record together, and its sizes are those of a 64-bit machine. -/
structure OrdinaryMessage (msg : LogMessage) (origin : SharedMessageOrigin) : Prop where
  /-- The outbox id is a `u64`. -/
  outboxId : origin.outboxId < 2 ^ 64
  /-- The length of the payload is a `usize`. -/
  payload : msg.payload.length < 2 ^ 64
  /-- The ids leave a kilobyte of a record for everything else. -/
  ids : msg.idsLength origin + 1024 ≤ s2MaxRecordMeteredBytes

variable {sim : Bool} {idBytes : { bytes : Bytes // bytes.length = 10 }} {now : OffsetDateTime}
  {msg : LogMessage} {origin : SharedMessageOrigin} {key : CipherKey} {nonces : Nat → Nonce}
  {workspaceId : WorkspaceId} {basin : S2Basin}

/-- What is written can be read, and every record is within the limit. -/
def ReadBack (key : CipherKey) (workspaceId : WorkspaceId) (msg : LogMessage)
    (origin : SharedMessageOrigin) (written : WrittenRecord) : Prop :=
  readRecord key written.basin workspaceId written.record = .ok (origin, msg) ∧
    ∀ record ∈ written.record :: written.parts,
      S2Sdk.meteredBytes record ≤ s2MaxRecordMeteredBytes

/-- A message in one record. -/
theorem readBack_inlined (key : CipherKey) (nonces : Nat → Nonce) (workspaceId : WorkspaceId)
    (basin : S2Basin) (h : OrdinaryMessage msg origin)
    (hfits : 8 + headersSize (encodeCommonHeaders msg origin) + msg.payload.length +
      ciphertextOverheadLen ≤ s2MaxRecordMeteredBytes) :
    ∃ written, writePackage key nonces workspaceId basin
        (.inlined ⟨encodeCommonHeaders msg origin, msg.payload⟩) = .ok written ∧
      ReadBack key workspaceId msg origin written := by
  obtain ⟨encrypted, hencrypted, hheaders, hmetered, hdecrypt⟩ :=
    encryptRecord_ok key (nonces 0) ⟨encodeCommonHeaders msg origin, msg.payload⟩
      (named_common msg origin) hfits
  have hcarries : CarriesHeaders encrypted.headers msg origin := by
    rw [hheaders]
    exact carriesHeaders_common
  refine ⟨⟨encrypted, [], basin⟩, ?_, ?_, ?_⟩
  · rw [writePackage, hencrypted]
    rfl
  · have hpointer : headerValue encrypted.headers "pointer" = none := by
      rw [hheaders]
      exact headerValue_pointer msg origin
    show readRecord key basin workspaceId encrypted = _
    rw [readRecord, hcarries.decodeOrigin h.outboxId, hpointer, hdecrypt]
    show (s2PayloadToSharedMessage encrypted.headers msg.payload >>= _) = _
    rw [hcarries.decodeMessage]
    rfl
  · intro record hrecord
    rw [List.mem_singleton.mp hrecord]
    exact hmetered

/-- The pointer that `shared_to_s2_package` makes. -/
def madePointer (sim : Bool) (idBytes : { bytes : Bytes // bytes.length = 10 })
    (now : OffsetDateTime) (payload : Bytes) : ObjectPointer :=
  ⟨.generate idBytes, now, payloadChecksum payload, payload.length,
    (splitPayload (maxInlineRecordSize sim) payload.length payload).length⟩

omit [S2Sdk] [AesGcm] [PointerJson] in
theorem made_madePointer (h : msg.payload.length < 2 ^ 64) :
    (madePointer sim idBytes now msg.payload).Made where
  id_length := length_generate idBytes
  id_ascii := isAscii_base32Digits _
  size := h
  records := length_splitPayload_le.trans_lt h

omit [PointerJson] in
/-- The parts of a payload are read back. -/
theorem readFullMultipart_ok {headers : List Header} {uploaded : List AppendRecord}
    {basin : S2Basin} (hcarries : CarriesHeaders headers msg origin)
    (hstream : basin (objectStreamText workspaceId now (.generate idBytes)) = uploaded)
    (hparts : List.Forall₂ (EncryptedPart key)
      (splitPayload (maxInlineRecordSize sim) msg.payload.length msg.payload) uploaded) :
    readFullMultipart key basin workspaceId headers (madePointer sim idBytes now msg.payload) =
      .ok msg := by
  have hname : (madePointer sim idBytes now msg.payload).streamName workspaceId =
      .ok (objectStreamText workspaceId now (.generate idBytes)) :=
    objectStreamText_ok workspaceId now (length_generate idBytes) (isAscii_base32Digits _)
  have hlength : (madePointer sim idBytes now msg.payload).nRecords = uploaded.length :=
    hparts.length_eq
  have hsession : (S2Sdk.readSession uploaded uploaded.length).flatten = uploaded := by
    rw [S2Sdk.readSession_flatten _ _ le_rfl, List.take_length]
  have hjoined : joinParts key (0, []) uploaded = .ok (uploaded.length, msg.payload) := by
    rw [joinParts_ok hparts, Nat.zero_add, List.nil_append,
      flatten_splitPayload (maxInlineRecordSize_pos sim) le_rfl]
  rw [readFullMultipart, hcarries.kind]
  show ((madePointer sim idBytes now msg.payload).streamName workspaceId >>= _) = _
  rw [hname]
  show (joinParts key (0, []) (S2Sdk.readSession (basin _) _).flatten >>= _) = _
  rw [hstream, hlength, hsession, hjoined]
  show (if uploaded.length ≠ uploaded.length then _
    else if msg.payload.length ≠ msg.payload.length then _
    else if payloadChecksum msg.payload ≠ payloadChecksum msg.payload then _
    else s2PayloadToSharedMessage headers msg.payload) = _
  rw [if_neg (not_not.mpr rfl), if_neg (not_not.mpr rfl), if_neg (not_not.mpr rfl),
    hcarries.decodeMessage]

/-- A message with a split payload. -/
theorem readBack_pointer (key : CipherKey) (nonces : Nat → Nonce) (workspaceId : WorkspaceId)
    (basin : S2Basin) (h : OrdinaryMessage msg origin) {json : Bytes}
    (hjson : PointerJson.fromSlice json = .ok (madePointer sim idBytes now msg.payload))
    (hmetered : S2Sdk.meteredBytes ⟨.new "pointer" json :: encodeCommonHeaders msg origin, []⟩ ≤
      s2MaxRecordMeteredBytes)
    (hfresh : basin (objectStreamText workspaceId now (.generate idBytes)) = []) :
    ∃ written, writePackage key nonces workspaceId basin
        (.pointer ⟨.new "pointer" json :: encodeCommonHeaders msg origin, []⟩
          (madePointer sim idBytes now msg.payload)
          ((splitPayload (maxInlineRecordSize sim) msg.payload.length msg.payload).map
            (AppendRecord.mk []))) = .ok written ∧
      ReadBack key workspaceId msg origin written := by
  have hcarries := carriesHeaders_pointer msg origin json
  have hname : (madePointer sim idBytes now msg.payload).streamName workspaceId =
      .ok (objectStreamText workspaceId now (.generate idBytes)) :=
    objectStreamText_ok workspaceId now (length_generate idBytes) (isAscii_base32Digits _)
  have hroom : ∀ body ∈ splitPayload (maxInlineRecordSize sim) msg.payload.length msg.payload,
      8 + body.length + ciphertextOverheadLen ≤ s2MaxRecordMeteredBytes := by
    intro body hbody
    have hle := length_le_of_mem_splitPayload hbody
    have hmax := maxInlineRecordSize_le sim
    rw [ciphertextOverheadLen]
    omega
  obtain ⟨uploaded, hupload, hparts⟩ := uploadFrom_ok key nonces hroom []
  rw [List.nil_append, List.length_nil] at hupload
  refine ⟨⟨⟨.new "pointer" json :: encodeCommonHeaders msg origin, []⟩, uploaded, fun other =>
    if other = objectStreamText workspaceId now (.generate idBytes) then uploaded
    else basin other⟩, ?_, ?_, ?_⟩
  · rw [writePackage, hname]
    show (uploadFrom key nonces 0 (basin _) _ >>= _) = _
    rw [hfresh, hupload]
    rfl
  · rw [readRecord, hcarries.decodeOrigin h.outboxId, headerValue_cons_self]
    show (PointerJson.fromSlice json >>= _) = _
    rw [hjson]
    show (readFullMultipart _ _ _ _ _ >>= _) = _
    rw [readFullMultipart_ok hcarries (if_pos rfl) hparts]
    rfl
  · exact List.forall_mem_cons.mpr ⟨hmetered, metered_of_mem_uploaded hparts⟩

/-- Every message is packaged, written and read back as it was, with its origin, and every record
that is written is within the limit of the log. -/
theorem read_written (sim : Bool) (key : CipherKey) (nonces : Nat → Nonce)
    (workspaceId : WorkspaceId) (basin : S2Basin)
    (idBytes : { bytes : Bytes // bytes.length = 10 }) (now : OffsetDateTime) (msg : LogMessage)
    (origin : SharedMessageOrigin) (h : OrdinaryMessage msg origin)
    (hfresh : basin (objectStreamText workspaceId now (.generate idBytes)) = []) :
    ∃ package written, sharedToS2Package sim idBytes now msg origin = .ok package ∧
      writePackage key nonces workspaceId basin package = .ok written ∧
      ReadBack key workspaceId msg origin written := by
  have hheaders := headersSize_common msg origin h.outboxId
  have hids := h.ids
  have hnamed := named_common msg origin
  have hroom : 8 + headersSize (encodeCommonHeaders msg origin) ≤ s2MaxRecordMeteredBytes := by
    omega
  have hfits := fitsInline_ok sim msg.payload.length hroom hnamed
  by_cases hinline : msg.payload.length < maxInlineRecordSize sim ∧
      8 + headersSize (encodeCommonHeaders msg origin) + msg.payload.length +
        ciphertextOverheadLen ≤ s2MaxRecordMeteredBytes
  · obtain ⟨written, hwritten, hread⟩ := readBack_inlined key nonces workspaceId basin h
      hinline.2
    refine ⟨_, written, ?_, hwritten, hread⟩
    rw [decide_eq_true hinline] at hfits
    rw [sharedToS2Package, hfits]
    show (AppendRecord.new msg.payload >>= _) = _
    rw [AppendRecord.new_ok (by omega)]
    show (AppendRecord.withHeaders ⟨[], msg.payload⟩ _ >>= _) = _
    rw [AppendRecord.withHeaders_ok (by omega) hnamed]
    rfl
  · obtain ⟨json, htoString, hfromSlice, hjson⟩ :=
      PointerJson.fromSlice_toString (madePointer sim idBytes now msg.payload)
        (made_madePointer h.payload)
    have hpointer : "pointer".toList.length = 7 := (List.cons.inj lengths_headerNames).1
    have hsize : 8 + headersSize (.new "pointer" json :: encodeCommonHeaders msg origin) ≤
        s2MaxRecordMeteredBytes := by
      rw [headersSize_cons]
      simp only [Header.new, length_asciiBytes, hpointer]
      omega
    have hname : asciiBytes "pointer".toList ≠ [] :=
      headerNames_ne_nil (by simp [headerNames])
    have hnamed' : Named (.new "pointer" json :: encodeCommonHeaders msg origin) :=
      List.forall_mem_cons.mpr ⟨hname, hnamed⟩
    have hwith : AppendRecord.withHeaders ⟨[], []⟩
        (.new "pointer" json :: encodeCommonHeaders msg origin) =
        .ok ⟨.new "pointer" json :: encodeCommonHeaders msg origin, []⟩ :=
      AppendRecord.withHeaders_ok hsize hnamed'
    have hmetered : S2Sdk.meteredBytes
        ⟨.new "pointer" json :: encodeCommonHeaders msg origin, []⟩ ≤ s2MaxRecordMeteredBytes := by
      rw [meteredBytes_eq_headersSize]
      exact hsize
    obtain ⟨written, hwritten, hread⟩ := readBack_pointer key nonces workspaceId basin h
      hfromSlice hmetered hfresh
    refine ⟨_, written, ?_, hwritten, hread⟩
    have hparts : ∀ body ∈ splitPayload (maxInlineRecordSize sim) msg.payload.length msg.payload,
        8 + body.length ≤ s2MaxRecordMeteredBytes := by
      intro body hbody
      have hle := length_le_of_mem_splitPayload hbody
      have hmax := maxInlineRecordSize_le sim
      omega
    rw [decide_eq_false hinline] at hfits
    rw [sharedToS2Package, hfits]
    show ((splitPayload _ _ _).mapM AppendRecord.new >>= _) = _
    rw [mapM_new_ok hparts]
    show (PointerJson.toString ⟨_, _, _, _, ((splitPayload _ _ _).map (AppendRecord.mk [])).length⟩
      >>= _) = _
    rw [List.length_map]
    show (PointerJson.toString (madePointer sim idBytes now msg.payload) >>= _) = _
    rw [htoString]
    show (AppendRecord.new [] >>= _) = _
    rw [AppendRecord.new_ok (by decide)]
    show (AppendRecord.withHeaders ⟨[], []⟩ _ >>= _) = _
    rw [hwith]
    rfl

end RoundTrip

/-! ## A split payload -/

section Run

/-- The last `k` digits of a number to base 256, the least first. -/
def littleEndian : Nat → Nat → Bytes
  | 0, _ => []
  | k + 1, n => Fin.ofNat 256 n :: littleEndian k (n / 256)

/-- The number of some digits. -/
def ofLittleEndian : Bytes → Nat
  | [] => 0
  | b :: bytes => b.val + 256 * ofLittleEndian bytes

theorem length_littleEndian (k n : Nat) : (littleEndian k n).length = k := by
  induction k generalizing n with
  | zero => rfl
  | succ k ih => rw [littleEndian, List.length_cons, ih]

theorem ofLittleEndian_littleEndian {k n : Nat} (h : n < 256 ^ k) :
    ofLittleEndian (littleEndian k n) = n := by
  induction k generalizing n with
  | zero =>
    rw [pow_zero] at h
    rw [littleEndian, ofLittleEndian]
    omega
  | succ k ih =>
    have hdiv : n / 256 < 256 ^ k := by
      rw [pow_succ] at h
      omega
    have hval : (Fin.ofNat 256 n).val = n % 256 := rfl
    rw [littleEndian, ofLittleEndian, ih hdiv, hval]
    omega

/-- Records are metered and checked, and a read session gives one batch. -/
local instance : S2Sdk where
  meteredBytes record := 8 + headersSize record.headers + record.body.length
  meteredBytes_eq _ := rfl
  validate record :=
    if 8 + headersSize record.headers + record.body.length ≤ s2MaxRecordMeteredBytes then .ok ⟨⟩
    else .error "record exceeds the limit"
  validate_ok _ h _ := if_pos h
  batch records := .ok records
  batch_ok _ _ := rfl
  streamName name := if name.length ≤ 512 then .ok name else .error "stream name is too long"
  streamName_ok _ _ _ h := if_pos h
  readSession stream count := [stream.take count]
  readSession_flatten _ _ _ := List.append_nil _

/-- A cipher that only adds its tag. -/
local instance : AesGcm where
  aeadEncrypt _ _ plaintext := some (plaintext ++ List.replicate 16 0)
  aeadDecrypt _ _ ciphertext := some (ciphertext.take (ciphertext.length - 16))
  aeadEncrypt_isSome _ _ _ _ := rfl
  length_aeadEncrypt _ _ plaintext ciphertext h := by
    rw [← Option.some.inj h, List.length_append, List.length_replicate]
  aeadDecrypt_aeadEncrypt _ _ plaintext ciphertext h := by
    rw [← Option.some.inj h, List.length_append, List.length_replicate, Nat.add_sub_cancel,
      List.take_left]

/-- A pointer as its fields one after the other. -/
def pointerFields (pointer : ObjectPointer) : Bytes :=
  asciiBytes pointer.objectPointerId ++ (littleEndian 16 (pointer.creationTime.unixTimestampNanos +
    377705116800000000000).toNat ++ (littleEndian 8 pointer.checksum.toNat ++
    (littleEndian 8 pointer.sizeBytes ++ littleEndian 8 pointer.nRecords)))

/-- The pointer of some fields. -/
def ofPointerFields (bytes : Bytes) : Except String ObjectPointer := do
  let id := (bytes.take 16).map fun b => Char.ofNat b.val
  let bytes := bytes.drop 16
  let now ← OffsetDateTime.fromUnixTimestampNanos
    ((ofLittleEndian (bytes.take 16) : Int) - 377705116800000000000)
  let bytes := bytes.drop 16
  let checksum := UInt64.ofNat (ofLittleEndian (bytes.take 8))
  let bytes := bytes.drop 8
  pure ⟨id, now, checksum, ofLittleEndian (bytes.take 8), ofLittleEndian (bytes.drop 8)⟩

theorem map_ofNat_asciiBytes {text : List Char} (h : IsAscii text) :
    (asciiBytes text).map (fun b => Char.ofNat b.val) = text := by
  induction text with
  | nil => rfl
  | cons c text ih =>
    obtain ⟨hc, htext⟩ := List.forall_mem_cons.mp h
    have hval : (Fin.ofNat 256 c.toNat).val = c.toNat := Nat.mod_eq_of_lt (by omega)
    rw [asciiBytes_cons, List.map_cons, ih htext, hval, Char.ofNat_toNat]

theorem ofPointerFields_pointerFields {pointer : ObjectPointer} (h : pointer.Made) :
    ofPointerFields (pointerFields pointer) = .ok pointer := by
  obtain ⟨id, now, checksum, size, records⟩ := pointer
  obtain ⟨hlength, hascii, hsize, hrecords⟩ := h
  have hid : (asciiBytes id).length = 16 := (length_asciiBytes id).trans hlength
  have hlow := now.lower
  have hhigh := now.upper
  have hnanos : ofLittleEndian (littleEndian 16
      (now.unixTimestampNanos + 377705116800000000000).toNat) =
      (now.unixTimestampNanos + 377705116800000000000).toNat :=
    ofLittleEndian_littleEndian (by omega)
  have hnow : OffsetDateTime.fromUnixTimestampNanos
      (((now.unixTimestampNanos + 377705116800000000000).toNat : Int) - 377705116800000000000) =
      .ok now := by
    rw [Int.toNat_of_nonneg (by omega), Int.add_sub_cancel]
    exact fromUnixTimestampNanos_eq now
  have hchecksum : ofLittleEndian (littleEndian 8 checksum.toNat) = checksum.toNat :=
    ofLittleEndian_littleEndian (checksum.toNat_lt.trans_le (by decide))
  have hsize' : ofLittleEndian (littleEndian 8 size) = size := ofLittleEndian_littleEndian hsize
  have hrecords' : ofLittleEndian (littleEndian 8 records) = records :=
    ofLittleEndian_littleEndian hrecords
  simp only [ofPointerFields, pointerFields, List.take_left' hid, List.drop_left' hid,
    List.take_left' (length_littleEndian 16 _), List.drop_left' (length_littleEndian 16 _),
    List.take_left' (length_littleEndian 8 _), List.drop_left' (length_littleEndian 8 _), hnanos,
    hnow, hchecksum, hsize', hrecords', map_ofNat_asciiBytes hascii]
  rw [UInt64.ofNat_toNat]
  rfl

/-- Pointers as their fields. -/
local instance : PointerJson where
  toString pointer := .ok (pointerFields pointer)
  fromSlice := ofPointerFields
  fromSlice_toString pointer h := by
    refine ⟨_, rfl, ofPointerFields_pointerFields h, ?_⟩
    have hid := h.id_length
    simp only [pointerFields, List.length_append, length_littleEndian, length_asciiBytes]
    omega

/-- The contents as their own hashes. -/
local instance : Xxh3 where
  xxh3_64 := id

/-- A text update of three thousand bytes. -/
def longUpdate : LogMessage := .textObjectUpdate [3] (List.replicate 3000 0)

/-- A workspace. -/
def sampleWorkspace : WorkspaceId :=
  ⟨List.replicate 32 'a', List.length_replicate, fun _ hc =>
    (List.eq_of_mem_replicate hc).symm ▸ ⟨by decide, by decide⟩⟩

theorem ordinary_longUpdate : OrdinaryMessage longUpdate ⟨[9], 7⟩ where
  outboxId := by decide
  payload := by
    rw [longUpdate, LogMessage.payload, List.length_replicate]
    decide
  ids := by decide

theorem read_written_longUpdate : ∃ package written,
    sharedToS2Package true ⟨List.replicate 10 0, rfl⟩ ⟨0, by decide, by decide⟩ longUpdate
        ⟨[9], 7⟩ = .ok package ∧
      writePackage ⟨List.replicate 32 0, rfl⟩ (fun _ => ⟨List.replicate 12 0, rfl⟩) sampleWorkspace
        (fun _ => []) package = .ok written ∧
      ReadBack ⟨List.replicate 32 0, rfl⟩ sampleWorkspace longUpdate ⟨[9], 7⟩ written :=
  read_written true _ _ sampleWorkspace (fun _ => []) _ _ longUpdate _ ordinary_longUpdate rfl

end Run

end Opbox
