import Mathlib.Data.List.Destutter
import Opbox.Crdt.NamespaceDoc

/-!
# Materialization of the namespace

The deterministic projection of a namespace document into the file system (`crdt/namespace.rs`):
every active claim gets a path of its own.  The least claim on a requested path keeps it, and the
others move, one after the other, to the first conflict name that is not taken.
-/

namespace Opbox

/-- `ConfirmedObject`. -/
structure ConfirmedObject where
  /-- The object. -/
  objectId : ObjectId
  /-- Its metadata. -/
  objectMeta : ObjectMeta
  deriving DecidableEq

/-- An active claim with the metadata of its object. -/
structure MaterializationClaim where
  /-- The claim. -/
  claimId : NamespaceClaimId
  /-- The object it places. -/
  objectId : ObjectId
  /-- The requested path. -/
  path : RelativePath
  /-- The metadata of the object. -/
  objectMeta : ObjectMeta
  deriving DecidableEq

namespace MaterializationClaim

/-- What claims are ordered by: requested path, creator of the object, object and claim.  Claims
have different ids, so the kind never decides. -/
def sortKey (c : MaterializationClaim) :
    RelativePath ×ₗ DaemonWriterId ×ₗ ObjectId ×ₗ NamespaceClaimId ×ₗ ObjectKind :=
  toLex (c.path, toLex (c.objectMeta.creatorWriterId,
    toLex (c.objectId, toLex (c.claimId, c.objectMeta.kind))))

theorem sortKey_injective : Function.Injective sortKey := by
  rintro ⟨_, _, _, _, _⟩ ⟨_, _, _, _, _⟩ h
  have h1 := Prod.mk.inj (toLex.injective h)
  have h2 := Prod.mk.inj (toLex.injective h1.2)
  have h3 := Prod.mk.inj (toLex.injective h2.2)
  have h4 := Prod.mk.inj (toLex.injective h3.2)
  cases h1.1; cases h2.1; cases h3.1; cases h4.1; cases h4.2
  rfl

instance : LinearOrder MaterializationClaim := LinearOrder.lift' sortKey sortKey_injective

end MaterializationClaim

/-- A deterministic filesystem projection derived from one namespace claim. -/
structure DesiredPlacement where
  /-- The rendered path. -/
  path : RelativePath
  /-- The requested path. -/
  claimedPath : RelativePath
  /-- The claim. -/
  claimId : NamespaceClaimId
  /-- The object. -/
  objectId : ObjectId
  /-- What the object holds. -/
  kind : ObjectKind
  deriving DecidableEq

/-- `NamespaceProjection`. -/
structure NamespaceProjection where
  /-- All objects of the document. -/
  confirmedObjects : List ConfirmedObject
  /-- The placements of the active claims. -/
  placements : List DesiredPlacement
  deriving DecidableEq

/-! ## Conflict names -/

/-- The lower-case alphabet. -/
def crockfordAlphabet : List Char := "0123456789abcdefghjkmnpqrstvwxyz".toList

/-- Digits of a bit string, five bits each; the last digit is filled up with zeros. -/
def base32Digits : List Bool → List Char
  | a :: b :: c :: d :: e :: bits =>
    crockfordAlphabet.getD (bitsToNat [a, b, c, d, e]) '0' :: base32Digits bits
  | [] => []
  | bits =>
    [crockfordAlphabet.getD (bitsToNat (bits ++ List.replicate (5 - bits.length) false)) '0']

/-- `crockford_base32_lower`. -/
def crockfordBase32Lower (bytes : Bytes) : List Char := base32Digits (bytes.flatMap byteBits)

/-- `rsplit_once('.')`: what stands before and after the last dot. -/
def rsplitOnceDot (name : List Char) : Option (List Char × List Char) :=
  let ext := (name.reverse.takeWhile (· ≠ '.')).reverse
  if '.' ∈ name then some (name.take (name.length - ext.length - 1), ext) else none

/-- `split_filename_for_conflict`. -/
def splitFilenameForConflict (name : List Char) : List Char × List Char :=
  match rsplitOnceDot name with
  | some (stem, ext) => if stem ≠ [] then (stem, '.' :: ext) else (name, [])
  | none => (name, [])

/-- `format_conflict_name`. -/
def formatConflictName (requestedName suffix : List Char) : List Char :=
  let (stem, ext) := splitFilenameForConflict requestedName
  stem ++ " (conflict ".toList ++ suffix ++ ")".toList ++ ext

/-- The suffixes tried for a claim, in order. -/
def conflictSuffixes (claim : MaterializationClaim) : List (List Char) :=
  let objectSuffix := crockfordBase32Lower claim.objectId
  let writerSuffix := crockfordBase32Lower claim.objectMeta.creatorWriterId
  let claimSuffix := crockfordBase32Lower claim.claimId
  [writerSuffix.take 6, objectSuffix.take 6, objectSuffix.take 8, objectSuffix,
    objectSuffix ++ '-' :: claimSuffix.take 6].destutter (· ≠ ·)

/-- The first of the candidate paths that is not occupied. -/
def firstAvailable (claim : MaterializationClaim) (occupied : List RelativePath) :
    List (List Char) → Except String RelativePath
  | [] =>
    let object := encodeB64 claim.objectId
    let path := String.ofList claim.path.toDbPath
    .error s!"unable to synthesize conflict path for object {object} from requested path {path}"
  | suffix :: suffixes => do
    let candidate ← claim.path.withFileName (formatConflictName claim.path.fileName suffix)
    if candidate ∉ occupied then pure candidate
    else firstAvailable claim occupied suffixes

/-- `next_available_conflict_path`. -/
def nextAvailableConflictPath (claim : MaterializationClaim) (occupied : List RelativePath) :
    Except String RelativePath :=
  firstAvailable claim occupied (conflictSuffixes claim)

/-! ## Placements -/

/-- The placement of a claim at a rendered path. -/
def MaterializationClaim.placeAt (claim : MaterializationClaim) (path : RelativePath) :
    DesiredPlacement :=
  ⟨path, claim.path, claim.claimId, claim.objectId, claim.objectMeta.kind⟩

/-- The keys of `claims_by_requested_path`, in order. -/
def requestedPaths (claims : List MaterializationClaim) : List RelativePath :=
  sortedList (claims.map MaterializationClaim.path).toFinset

/-- The claims on one requested path, in the order of creator, object and claim. -/
def claimsAt (claims : List MaterializationClaim) (path : RelativePath) :
    List MaterializationClaim :=
  (claims.filter fun c => c.path = path).insertionSort (· ≤ ·)

/-- The placement of the claim that keeps a requested path. -/
def winnerAt (claims : List MaterializationClaim) (path : RelativePath) : Option DesiredPlacement :=
  (claimsAt claims path).head?.map fun winner => winner.placeAt path

/-- The claims that lose their requested paths. -/
def losingClaims (claims : List MaterializationClaim) : List MaterializationClaim :=
  (requestedPaths claims).flatMap fun path => (claimsAt claims path).tail

/-- Place the losing claims, one after the other, where nothing has been placed. -/
def placeLosers (occupied : List RelativePath) :
    List MaterializationClaim → Except String (List DesiredPlacement)
  | [] => .ok []
  | claim :: claims => do
    let path ← nextAvailableConflictPath claim occupied
    let placements ← placeLosers (path :: occupied) claims
    pure (claim.placeAt path :: placements)

/-- `derive_visible_placements`.  Rendered paths differ, so the final order is that of the paths. -/
def deriveVisiblePlacements (claims : List MaterializationClaim) :
    Except String (List DesiredPlacement) := do
  let paths := requestedPaths claims
  let losers ← placeLosers paths (losingClaims claims)
  pure ((paths.filterMap (winnerAt claims) ++ losers).insertionSort fun a b => a.path ≤ b.path)

namespace NamespaceDoc

/-- `confirmed_objects_from_doc`. -/
def confirmedObjects (doc : NamespaceDoc) : Except String (List ConfirmedObject) :=
  (sortedList doc.allObjectIds).mapM fun id =>
    match doc.getObject id with
    | some objectMeta => .ok ⟨id, objectMeta⟩
    | none =>
      let object := encodeB64 id
      .error s!"namespace object {object} missing metadata during materialization"

/-- An active claim with its record and the metadata of its object. -/
def materializationClaim (doc : NamespaceDoc) (id : NamespaceClaimId) :
    Except String MaterializationClaim :=
  match doc.getClaim id with
  | none =>
    let claim := (encodeB64 id).quote
    .error s!"namespace claim {claim} has invalid record"
  | some record =>
    match doc.getObject record.objectId with
    | none =>
      let claim := encodeB64 id
      let object := encodeB64 record.objectId
      .error s!"namespace claim {claim} references object {object} without metadata"
    | some objectMeta => .ok ⟨id, record.objectId, record.path, objectMeta⟩

/-- `collect_materialization_claims`, sorted as `sort_claims_deterministically` does. -/
def materializationClaims (doc : NamespaceDoc) : Except String (List MaterializationClaim) := do
  let claims ← (sortedList doc.activeClaimIds).mapM doc.materializationClaim
  pure (claims.insertionSort (· ≤ ·))

/-- `materialize`. -/
def materialize (doc : NamespaceDoc) : Except String NamespaceProjection := do
  let confirmedObjects ← doc.confirmedObjects
  let claims ← doc.materializationClaims
  let placements ← deriveVisiblePlacements claims
  pure ⟨confirmedObjects, placements⟩

end NamespaceDoc

end Opbox
