import Metnos.Lib.Texts
import Metnos.Lib.Transaction

/-!
# Helper.Protocol — what the privileged helper accepts

The helper takes no command line: a request is one of four closed shapes, its shape is checked
before anything else, and the action is built from the checked values only.  The body that is
signed lists the fields of the request in a fixed order, with a separator between them.
-/

namespace Metnos.Helper

open Texts

/-! ## The vocabulary -/

inductive Source
  | winget
deriving DecidableEq

def Source.program : Source → String
  | .winget => "winget.exe"

def Source.name : Source → String
  | .winget => "winget"

inductive Operation
  | query | install | uninstall | version
deriving DecidableEq

def Operation.name : Operation → String
  | .query => "query"
  | .install => "install"
  | .uninstall => "uninstall"
  | .version => "version"

inductive StartLifetime
  | session | persistent
deriving DecidableEq

def StartLifetime.asStr : StartLifetime → String
  | .session => "session"
  | .persistent => "persistent"

inductive ProviderInterface
  | hardwareSensorsV1
deriving DecidableEq

def ProviderInterface.asStr : ProviderInterface → String
  | .hardwareSensorsV1 => "hardware_sensors_v1"

inductive HardwareDomain
  | battery | controller | cpu | gpu | memory | motherboard | network | powerMonitor
  | powerSupply | storage
deriving DecidableEq

def HardwareDomain.asStr : HardwareDomain → String
  | .battery => "battery"
  | .controller => "controller"
  | .cpu => "cpu"
  | .gpu => "gpu"
  | .memory => "memory"
  | .motherboard => "motherboard"
  | .network => "network"
  | .powerMonitor => "power_monitor"
  | .powerSupply => "power_supply"
  | .storage => "storage"

inductive SensorKind
  | clock | conductivity | control | current | data | energy | factor | fan | flow | frequency
  | humidity | level | load | noise | power | smallData | temperature | throughput | timeSpan
  | timing | voltage
deriving DecidableEq

def SensorKind.asStr : SensorKind → String
  | .clock => "clock"
  | .conductivity => "conductivity"
  | .control => "control"
  | .current => "current"
  | .data => "data"
  | .energy => "energy"
  | .factor => "factor"
  | .fan => "fan"
  | .flow => "flow"
  | .frequency => "frequency"
  | .humidity => "humidity"
  | .level => "level"
  | .load => "load"
  | .noise => "noise"
  | .power => "power"
  | .smallData => "small_data"
  | .temperature => "temperature"
  | .throughput => "throughput"
  | .timeSpan => "time_span"
  | .timing => "timing"
  | .voltage => "voltage"

structure Request where
  operation : Operation
  source : Source
  packageId : String
  version : Option String
  idempotencyKey : String
  signature : String
deriving DecidableEq

structure ManagedStartRequest where
  source : Source
  packageId : String
  lifetime : StartLifetime
  idempotencyKey : String
  signature : String
deriving DecidableEq

structure ManagedStopRequest where
  source : Source
  packageId : String
  pid : UInt32
  creationTime : UInt64
  idempotencyKey : String
  signature : String
deriving DecidableEq

structure ManagedProviderRequest where
  source : Source
  packageId : String
  interface : ProviderInterface
  assembly : String
  entryType : String
  domains : List HardwareDomain
  sensorTypes : List SensorKind
  invocationId : String
  manifestSha256 : String
  dependencyKey : String
  grantSignature : String
  idempotencyKey : String
  signature : String
deriving DecidableEq

inductive WireRequest
  | package (request : Request)
  | managedStart (request : ManagedStartRequest)
  | managedStop (request : ManagedStopRequest)
  | managedProvider (request : ManagedProviderRequest)
deriving DecidableEq

inductive Refusal
  | malformedPackageId | malformedVersion | malformedIdempotencyKey | malformedProcessIdentity
  | replayedRequest | untrustedSignature | untrustedGrant
deriving DecidableEq

def Refusal.code : Refusal → String
  | .malformedPackageId => "malformed_package_id"
  | .malformedVersion => "malformed_version"
  | .malformedIdempotencyKey => "malformed_idempotency_key"
  | .malformedProcessIdentity => "malformed_process_identity"
  | .replayedRequest => "replayed_request"
  | .untrustedSignature => "untrusted_signature"
  | .untrustedGrant => "untrusted_provider_grant"

/-! ## Shapes -/

def byteLength (value : String) : ℕ := value.utf8ByteSize

def isIdChar (c : Char) : Bool := c.isAlphanum || ['.', '_', '+', ':', '-', '@'].contains c

def isValidPackageId (value : String) : Bool :=
  decide (value ≠ "") && decide (byteLength value ≤ 128) &&
    value.toList.head?.any Char.isAlphanum && value.toList.all isIdChar

def isVersionChar (c : Char) : Bool := c.isAlphanum || ['.', '_', '+', '-'].contains c

def isValidVersion (value : String) : Bool :=
  decide (value ≠ "") && decide (byteLength value ≤ 64) &&
    value.toList.head?.any Char.isDigit && value.toList.all isVersionChar

def isHexDigit (c : Char) : Bool :=
  c.isDigit || decide ('a' ≤ c ∧ c ≤ 'f') || decide ('A' ≤ c ∧ c ≤ 'F')

def isValidIdempotencyKey (value : String) : Bool :=
  decide (byteLength value = 32) && value.toList.all isHexDigit

def isIdentifierChar (c : Char) : Bool := c.isAlphanum || c = '_'

def isValidIdentifier (value : String) : Bool :=
  decide (value ≠ "") && decide (byteLength value ≤ 64) &&
    value.toList.head?.any Char.isAlpha && value.toList.all isIdentifierChar

def isAssemblyChar (c : Char) : Bool := c.isAlphanum || ['.', '_', '-'].contains c

def isValidAssemblyName (value : String) : Bool :=
  decide (value ≠ "") && decide (byteLength value ≤ 128) &&
    value.toList.head?.any Char.isAlphanum &&
    ['.', 'd', 'l', 'l'].isSuffixOf (value.toList.map Char.toLower) &&
    value.toList.all isAssemblyChar

def isValidDotnetType (value : String) : Bool :=
  decide (value ≠ "") && decide (byteLength value ≤ 192) &&
    (value.toList.splitOn '.').all (fun part => isValidIdentifier (String.ofList part))

def isValidInvocationId (value : String) : Bool :=
  decide (byteLength value = 28) && ['i', 'n', 'v', '-'].isPrefixOf value.toList &&
    (value.toList.drop 4).all isHexDigit

def isValidSha256 (value : String) : Bool :=
  decide (byteLength value = 64) && value.toList.all isHexDigit

def isSignatureChar (c : Char) : Bool := c.isAlphanum || ['-', '_'].contains c

def isValidB64urlSignature (value : String) : Bool :=
  decide (byteLength value = 86) && value.toList.all isSignatureChar

/-- `closed_selectors`, on the rendered names. -/
def closedSelectors (names : List String) : Bool :=
  !names.isEmpty && decide (names.length ≤ 16) &&
    (names.zip names.tail).all (fun pair => decide (pair.1 < pair.2))

def refuseUnless (refusal : Refusal) (b : Bool) : Except Refusal Unit :=
  if b then .ok () else .error refusal

def Request.checkShape (r : Request) : Except Refusal Unit := do
  refuseUnless .malformedPackageId
    (if r.operation = .version then decide (r.packageId = "") else isValidPackageId r.packageId)
  refuseUnless .malformedVersion (r.version.all isValidVersion)
  refuseUnless .malformedIdempotencyKey (isValidIdempotencyKey r.idempotencyKey)

def ManagedStartRequest.checkShape (r : ManagedStartRequest) : Except Refusal Unit := do
  refuseUnless .malformedPackageId (isValidPackageId r.packageId)
  refuseUnless .malformedIdempotencyKey (isValidIdempotencyKey r.idempotencyKey)

def ManagedStopRequest.checkShape (r : ManagedStopRequest) : Except Refusal Unit := do
  refuseUnless .malformedPackageId (isValidPackageId r.packageId)
  refuseUnless .malformedProcessIdentity (r.pid != 0 && r.creationTime != 0)
  refuseUnless .malformedIdempotencyKey (isValidIdempotencyKey r.idempotencyKey)

def ManagedProviderRequest.checkShape (r : ManagedProviderRequest) : Except Refusal Unit := do
  refuseUnless .malformedPackageId (isValidPackageId r.packageId)
  refuseUnless .untrustedGrant (isValidInvocationId r.invocationId &&
    isValidSha256 r.manifestSha256 && isValidIdentifier r.dependencyKey &&
    isValidAssemblyName r.assembly && isValidDotnetType r.entryType &&
    isValidB64urlSignature r.grantSignature &&
    closedSelectors (r.domains.map HardwareDomain.asStr) &&
    closedSelectors (r.sensorTypes.map SensorKind.asStr))
  refuseUnless .malformedIdempotencyKey (isValidIdempotencyKey r.idempotencyKey)

/-! ## The signed bodies -/

/-- The unit separator, `\u{1f}`. -/
def separator : Char := Char.ofNat 0x1f

/-- The fields of the body, in their order. -/
def Request.fields (r : Request) : List String :=
  [r.operation.name, r.source.name, r.packageId, r.version.getD "", r.idempotencyKey]

def Request.canonicalBody (r : Request) : String := join separator r.fields

def ManagedStartRequest.fields (r : ManagedStartRequest) : List String :=
  ["managed-start", r.source.name, r.packageId, r.lifetime.asStr, r.idempotencyKey]

def ManagedStartRequest.canonicalBody (r : ManagedStartRequest) : String :=
  join separator r.fields

def ManagedStopRequest.fields (r : ManagedStopRequest) : List String :=
  ["managed-stop", r.source.name, r.packageId, r.pid.toNat.repr, r.creationTime.toNat.repr,
    r.idempotencyKey]

def ManagedStopRequest.canonicalBody (r : ManagedStopRequest) : String := join separator r.fields

namespace ManagedProviderRequest

variable (r : ManagedProviderRequest)

def grantFields : List String :=
  ["managed-provider-grant", r.invocationId, r.manifestSha256, r.dependencyKey, r.source.name,
    r.packageId, r.interface.asStr, r.assembly, r.entryType,
    join ',' (r.domains.map HardwareDomain.asStr), join ',' (r.sensorTypes.map SensorKind.asStr)]

def canonicalGrantBody : String := join separator r.grantFields

def canonicalBody : String :=
  join separator ["managed-provider", r.canonicalGrantBody, r.grantSignature, r.idempotencyKey]

end ManagedProviderRequest

/-! ## Actions -/

inductive Action
  | packageCommand (argv : List String)
  | helperUpdateCheck
  | managedStart (packageId : String) (lifetime : StartLifetime)
  | managedStop (packageId : String) (pid : UInt32) (creationTime : UInt64)
  | managedProvider (packageId : String) (interface : ProviderInterface) (assembly : String)
    (entryType : String) (domains : List HardwareDomain) (sensorTypes : List SensorKind)
deriving DecidableEq

/-- The word for an operation in the command line of the package manager. -/
def Operation.verb : Operation → Option String
  | .query => some "list"
  | .install => some "install"
  | .uninstall => some "uninstall"
  | .version => none

/-- The command line of a package operation: received texts are values in it, never options. -/
def Request.argv (r : Request) : List String :=
  match r.operation.verb with
  | none => []
  | some verb =>
    [r.source.program, verb, "--id", r.packageId, "--exact", "--accept-source-agreements",
      "--disable-interactivity"] ++ r.version.toList.flatMap (fun v => ["--version", v]) ++
      (if r.operation = .install then
        ["--accept-package-agreements", "--silent", "--scope", "machine"] else []) ++
      if r.operation = .uninstall then ["--silent"] else []

namespace WireRequest

def idempotencyKey : WireRequest → String
  | .package r => r.idempotencyKey
  | .managedStart r => r.idempotencyKey
  | .managedStop r => r.idempotencyKey
  | .managedProvider r => r.idempotencyKey

def signature : WireRequest → String
  | .package r => r.signature
  | .managedStart r => r.signature
  | .managedStop r => r.signature
  | .managedProvider r => r.signature

def canonicalBody : WireRequest → String
  | .package r => r.canonicalBody
  | .managedStart r => r.canonicalBody
  | .managedStop r => r.canonicalBody
  | .managedProvider r => r.canonicalBody

def checkShape : WireRequest → Except Refusal Unit
  | .package r => r.checkShape
  | .managedStart r => r.checkShape
  | .managedStop r => r.checkShape
  | .managedProvider r => r.checkShape

def isVersionQuery : WireRequest → Bool
  | .package r => decide (r.operation = .version)
  | _ => false

def action : WireRequest → Option Action
  | .package r =>
    if r.operation = .version then
      if r.version.isSome then some .helperUpdateCheck else none
    else some (.packageCommand r.argv)
  | .managedStart r => some (.managedStart r.packageId r.lifetime)
  | .managedStop r => some (.managedStop r.packageId r.pid r.creationTime)
  | .managedProvider r => some (.managedProvider r.packageId r.interface r.assembly r.entryType
      r.domains r.sensorTypes)

end WireRequest

/-! ## What the checks say -/

@[simp] theorem refuseUnless_eq_ok {refusal : Refusal} {b : Bool} {u : Unit} :
    refuseUnless refusal b = .ok u ↔ b = true := by
  cases b <;> simp [refuseUnless]

theorem checkShape_idempotencyKey {r : WireRequest} (h : r.checkShape = .ok ()) :
    isValidIdempotencyKey r.idempotencyKey = true := by
  cases r with
  | package r =>
    simp only [WireRequest.checkShape, Request.checkShape, Transaction.bind_eq_ok,
      refuseUnless_eq_ok] at h
    obtain ⟨-, -, -, -, h⟩ := h
    exact h
  | managedStart r =>
    simp only [WireRequest.checkShape, ManagedStartRequest.checkShape, Transaction.bind_eq_ok,
      refuseUnless_eq_ok] at h
    obtain ⟨-, -, h⟩ := h
    exact h
  | managedStop r =>
    simp only [WireRequest.checkShape, ManagedStopRequest.checkShape, Transaction.bind_eq_ok,
      refuseUnless_eq_ok] at h
    obtain ⟨-, -, -, -, h⟩ := h
    exact h
  | managedProvider r =>
    simp only [WireRequest.checkShape, ManagedProviderRequest.checkShape, Transaction.bind_eq_ok,
      refuseUnless_eq_ok] at h
    obtain ⟨-, -, -, -, h⟩ := h
    exact h

end Metnos.Helper
