import Metnos.Helper.Protocol
import Metnos.Invocations.Queue
import Metnos.Lib.Utf8
import Mathlib.Data.List.Dedup

/-!
# Helper.Bodies — a signature binds the whole request

Every field of a request with a valid shape is free of the separator, so that a body can be cut
into its fields again.  The first field tells the four kinds of requests and the grant apart, and
each kind shows all that it holds in its fields.  The grant is also written by the server, in
another language; on every grant that the helper accepts the two texts are the same.
-/

namespace Metnos.Helper

open Texts

/-! ## Names -/

theorem Operation.name_injective : Function.Injective name := by
  intro a b
  cases a <;> cases b <;> simp [name]

theorem StartLifetime.asStr_injective : Function.Injective asStr := by
  intro a b
  cases a <;> cases b <;> simp [asStr]

theorem HardwareDomain.asStr_injective : Function.Injective asStr := by
  intro a b
  cases a <;> cases b <;> simp [asStr]

theorem SensorKind.asStr_injective : Function.Injective asStr := by
  intro a b
  cases a <;> cases b <;> simp [asStr]

theorem Operation.free_name (o : Operation) : Free separator o.name := by
  cases o <;> simp [Free, separator, name]

theorem Source.free_name (s : Source) : Free separator s.name := by
  cases s
  simp [Free, separator, name]

theorem StartLifetime.free_asStr (l : StartLifetime) : Free separator l.asStr := by
  cases l <;> simp [Free, separator, asStr]

theorem ProviderInterface.free_asStr (i : ProviderInterface) : Free separator i.asStr := by
  cases i
  simp [Free, separator, asStr]

theorem HardwareDomain.asStr_selector (d : HardwareDomain) :
    Invocations.validSelector d.asStr = true := by
  cases d <;> simp [Invocations.validSelector, asStr, ← String.length_toList]

theorem SensorKind.asStr_selector (k : SensorKind) :
    Invocations.validSelector k.asStr = true := by
  cases k <;> simp [Invocations.validSelector, asStr, ← String.length_toList]

/-! ## Fields without separators -/

theorem free_packageId {s : String} (h : isValidPackageId s = true) : Free separator s := by
  simp only [isValidPackageId, Bool.and_eq_true] at h
  exact free_of_all h.2 (by decide)

theorem free_version {s : String} (h : isValidVersion s = true) : Free separator s := by
  simp only [isValidVersion, Bool.and_eq_true] at h
  exact free_of_all h.2 (by decide)

theorem free_idempotencyKey {s : String} (h : isValidIdempotencyKey s = true) :
    Free separator s := by
  simp only [isValidIdempotencyKey, Bool.and_eq_true] at h
  exact free_of_all h.2 (by decide)

theorem free_identifier {s : String} (h : isValidIdentifier s = true) : Free separator s := by
  simp only [isValidIdentifier, Bool.and_eq_true] at h
  exact free_of_all h.2 (by decide)

theorem free_assemblyName {s : String} (h : isValidAssemblyName s = true) : Free separator s := by
  simp only [isValidAssemblyName, Bool.and_eq_true] at h
  exact free_of_all h.2 (by decide)

theorem free_sha256 {s : String} (h : isValidSha256 s = true) : Free separator s := by
  simp only [isValidSha256, Bool.and_eq_true] at h
  exact free_of_all h.2 (by decide)

theorem free_b64urlSignature {s : String} (h : isValidB64urlSignature s = true) :
    Free separator s := by
  simp only [isValidB64urlSignature, Bool.and_eq_true] at h
  exact free_of_all h.2 (by decide)

theorem free_dotnetType {s : String} (h : isValidDotnetType s = true) : Free separator s := by
  simp only [isValidDotnetType, Bool.and_eq_true] at h
  intro hmem
  obtain ⟨part, hpart, hc⟩ := mem_splitOn (d := '.') hmem (by decide)
  have free := free_identifier (List.all_eq_true.mp h.2 part hpart)
  exact free (by simpa using hc)

theorem free_invocationId {s : String} (h : isValidInvocationId s = true) : Free separator s := by
  simp only [isValidInvocationId, Bool.and_eq_true] at h
  obtain ⟨⟨-, hprefix⟩, hrest⟩ := h
  obtain ⟨rest, hrest'⟩ := List.isPrefixOf_iff_prefix.mp hprefix
  rw [← hrest', show List.drop 4 (['i', 'n', 'v', '-'] ++ rest) = rest from rfl] at hrest
  intro hmem
  rw [← hrest', List.mem_append] at hmem
  rcases hmem with hmem | hmem
  · revert hmem
    decide
  · have bad := List.all_eq_true.mp hrest _ hmem
    revert bad
    decide

theorem free_repr (n : ℕ) : Free separator n.repr := by
  intro hmem
  rw [Nat.toList_repr] at hmem
  have digit := Nat.isDigit_of_mem_toDigits (by decide) (by decide) hmem
  revert digit
  decide

theorem repr_injective {n m : ℕ} (h : n.repr = m.repr) : n = m := by
  have digits := congrArg String.toList h
  rw [Nat.toList_repr, Nat.toList_repr] at digits
  rw [← Nat.ofDigitChars_ten_toDigits (n := n), digits, Nat.ofDigitChars_ten_toDigits]

/-! ## Fields of valid requests -/

theorem Request.free_fields {r : Request} (h : r.checkShape = .ok ()) :
    ∀ s ∈ r.fields, Free separator s := by
  simp only [Request.checkShape, Transaction.bind_eq_ok, refuseUnless_eq_ok] at h
  obtain ⟨-, hid, -, hversion, hkey⟩ := h
  have packageId : Free separator r.packageId := by
    split at hid
    · rw [of_decide_eq_true hid]
      decide
    · exact free_packageId hid
  have version : Free separator (r.version.getD "") := by
    cases hv : r.version with
    | none => decide
    | some v =>
      rw [hv] at hversion
      exact free_version hversion
  simp only [Request.fields, List.forall_mem_cons, List.not_mem_nil, false_imp_iff, forall_true_iff]
  exact ⟨r.operation.free_name, r.source.free_name, packageId, version, free_idempotencyKey hkey,
    trivial⟩

theorem ManagedStartRequest.free_fields {r : ManagedStartRequest} (h : r.checkShape = .ok ()) :
    ∀ s ∈ r.fields, Free separator s := by
  simp only [ManagedStartRequest.checkShape, Transaction.bind_eq_ok, refuseUnless_eq_ok] at h
  obtain ⟨-, hid, hkey⟩ := h
  simp only [fields, List.forall_mem_cons, List.not_mem_nil, false_imp_iff, forall_true_iff]
  exact ⟨by simp [Free, separator], r.source.free_name, free_packageId hid, r.lifetime.free_asStr,
    free_idempotencyKey hkey, trivial⟩

theorem ManagedStopRequest.free_fields {r : ManagedStopRequest} (h : r.checkShape = .ok ()) :
    ∀ s ∈ r.fields, Free separator s := by
  simp only [ManagedStopRequest.checkShape, Transaction.bind_eq_ok, refuseUnless_eq_ok] at h
  obtain ⟨-, hid, -, -, hkey⟩ := h
  simp only [fields, List.forall_mem_cons, List.not_mem_nil, false_imp_iff, forall_true_iff]
  exact ⟨by simp [Free, separator], r.source.free_name, free_packageId hid, free_repr _, free_repr _,
    free_idempotencyKey hkey, trivial⟩

namespace ManagedProviderRequest

variable {r : ManagedProviderRequest}

/-- The fields of the body, those of the grant among them. -/
def fields (r : ManagedProviderRequest) : List String :=
  "managed-provider" :: r.grantFields ++ [r.grantSignature, r.idempotencyKey]

theorem canonicalBody_eq : r.canonicalBody = join separator r.fields :=
  join_join (by simp [grantFields]) (by simp)

theorem checkShape_ok (h : r.checkShape = .ok ()) :
    isValidPackageId r.packageId = true ∧ isValidInvocationId r.invocationId = true ∧
      isValidSha256 r.manifestSha256 = true ∧ isValidIdentifier r.dependencyKey = true ∧
      isValidAssemblyName r.assembly = true ∧ isValidDotnetType r.entryType = true ∧
      isValidB64urlSignature r.grantSignature = true ∧
      closedSelectors (r.domains.map HardwareDomain.asStr) = true ∧
      closedSelectors (r.sensorTypes.map SensorKind.asStr) = true ∧
      isValidIdempotencyKey r.idempotencyKey = true := by
  simp only [checkShape, Transaction.bind_eq_ok, refuseUnless_eq_ok, Bool.and_eq_true] at h
  obtain ⟨-, hid, -, hgrant, hkey⟩ := h
  exact ⟨hid, by tauto⟩

theorem free_selector {c : Char} {names : List String}
    (h : ∀ s ∈ names, Invocations.validSelector s = true) (hc : c.isAlphanum = false)
    (ne : c ≠ '_') : ∀ s ∈ names, Free c s := by
  intro s hs
  have valid := h s hs
  simp only [Invocations.validSelector, Bool.and_eq_true] at valid
  exact free_of_all valid.2 (by simp [hc, ne])

theorem free_grantFields (h : r.checkShape = .ok ()) :
    ∀ s ∈ r.grantFields, Free separator s := by
  obtain ⟨hid, hinv, hsha, hkey, hassembly, htype, -, -, -, -⟩ := checkShape_ok h
  have domains : Free separator (join ',' (r.domains.map HardwareDomain.asStr)) := by
    refine free_join (by decide) (free_selector ?_ (by decide) (by decide))
    intro s hs
    obtain ⟨d, -, rfl⟩ := List.mem_map.mp hs
    exact d.asStr_selector
  have sensorTypes : Free separator (join ',' (r.sensorTypes.map SensorKind.asStr)) := by
    refine free_join (by decide) (free_selector ?_ (by decide) (by decide))
    intro s hs
    obtain ⟨k, -, rfl⟩ := List.mem_map.mp hs
    exact k.asStr_selector
  simp only [grantFields, List.forall_mem_cons, List.not_mem_nil, false_imp_iff, forall_true_iff]
  exact ⟨by simp [Free, separator], free_invocationId hinv, free_sha256 hsha, free_identifier hkey,
    r.source.free_name, free_packageId hid, r.interface.free_asStr, free_assemblyName hassembly,
    free_dotnetType htype, domains, sensorTypes, trivial⟩

theorem free_fields (h : r.checkShape = .ok ()) : ∀ s ∈ r.fields, Free separator s := by
  obtain ⟨-, -, -, -, -, -, hsig, -, -, hkey⟩ := checkShape_ok h
  intro s hs
  simp only [fields, List.cons_append, List.mem_cons, List.mem_append, List.not_mem_nil,
    or_false] at hs
  obtain rfl | hs | rfl | rfl := hs
  · simp [Free, separator]
  · exact free_grantFields h s hs
  · exact free_b64urlSignature hsig
  · exact free_idempotencyKey hkey

end ManagedProviderRequest

/-! ## Requests -/

namespace WireRequest

variable {r r' : WireRequest}

def fields : WireRequest → List String
  | .package r => r.fields
  | .managedStart r => r.fields
  | .managedStop r => r.fields
  | .managedProvider r => r.fields

def unsigned : WireRequest → WireRequest
  | .package r => .package { r with signature := "" }
  | .managedStart r => .managedStart { r with signature := "" }
  | .managedStop r => .managedStop { r with signature := "" }
  | .managedProvider r => .managedProvider { r with signature := "" }

theorem canonicalBody_eq (r : WireRequest) : r.canonicalBody = join separator r.fields := by
  cases r with
  | managedProvider r => exact ManagedProviderRequest.canonicalBody_eq
  | _ => rfl

theorem free_fields (h : r.checkShape = .ok ()) : ∀ s ∈ r.fields, Free separator s := by
  cases r with
  | package r => exact Request.free_fields h
  | managedStart r => exact ManagedStartRequest.free_fields h
  | managedStop r => exact ManagedStopRequest.free_fields h
  | managedProvider r => exact ManagedProviderRequest.free_fields h

/-- The first field tells the kinds apart. -/
def kind : WireRequest → List String
  | .package _ => ["query", "install", "uninstall", "version"]
  | .managedStart _ => ["managed-start"]
  | .managedStop _ => ["managed-stop"]
  | .managedProvider _ => ["managed-provider"]

theorem fields_eq (r : WireRequest) : ∃ head ∈ r.kind, ∃ rest, r.fields = head :: rest := by
  cases r with
  | package r =>
    refine ⟨r.operation.name, ?_, _, rfl⟩
    show r.operation.name ∈ ["query", "install", "uninstall", "version"]
    cases r.operation <;> simp [Operation.name]
  | managedStart r => exact ⟨_, List.mem_singleton_self _, _, rfl⟩
  | managedStop r => exact ⟨_, List.mem_singleton_self _, _, rfl⟩
  | managedProvider r => exact ⟨_, List.mem_singleton_self _, _, rfl⟩

end WireRequest

theorem Request.unsigned_eq {r r' : Request} (h : r.checkShape = .ok ())
    (h' : r'.checkShape = .ok ()) (heq : r.fields = r'.fields) :
    { r with signature := "" } = { r' with signature := "" } := by
  have version : ∀ {r : Request}, r.checkShape = .ok () → r.version ≠ some "" := by
    intro r h hv
    simp only [checkShape, Transaction.bind_eq_ok, refuseUnless_eq_ok, hv] at h
    obtain ⟨-, -, -, hversion, -⟩ := h
    revert hversion
    simp [isValidVersion]
  obtain ⟨operation, source, packageId, v, key, sig⟩ := r
  obtain ⟨operation', source', packageId', v', key', sig'⟩ := r'
  simp only [fields, List.cons.injEq] at heq
  obtain ⟨hop, -, rfl, hv, rfl, -⟩ := heq
  have op : operation = operation' := Operation.name_injective hop
  have ver : v = v' := by
    have hne := version h
    have hne' := version h'
    dsimp only at hne hne'
    cases v with
    | none =>
      cases v' with
      | none => rfl
      | some v' => exact absurd (by rw [← show "" = v' from hv]) hne'
    | some v =>
      cases v' with
      | none => exact absurd (by rw [show v = "" from hv]) hne
      | some v' => rw [show v = v' from hv]
  cases source
  cases source'
  rw [op, ver]

theorem ManagedStartRequest.unsigned_eq {r r' : ManagedStartRequest} (heq : r.fields = r'.fields) :
    { r with signature := "" } = { r' with signature := "" } := by
  obtain ⟨source, packageId, lifetime, key, sig⟩ := r
  obtain ⟨source', packageId', lifetime', key', sig'⟩ := r'
  simp only [fields, List.cons.injEq] at heq
  obtain ⟨-, -, rfl, hlife, rfl, -⟩ := heq
  have life : lifetime = lifetime' := StartLifetime.asStr_injective hlife
  cases source
  cases source'
  rw [life]

theorem ManagedStopRequest.unsigned_eq {r r' : ManagedStopRequest} (heq : r.fields = r'.fields) :
    { r with signature := "" } = { r' with signature := "" } := by
  obtain ⟨source, packageId, pid, time, key, sig⟩ := r
  obtain ⟨source', packageId', pid', time', key', sig'⟩ := r'
  simp only [fields, List.cons.injEq] at heq
  obtain ⟨-, -, rfl, hpid, htime, rfl, -⟩ := heq
  have pid : pid = pid' := UInt32.toNat_inj.mp (repr_injective hpid)
  have time : time = time' := UInt64.toNat_inj.mp (repr_injective htime)
  cases source
  cases source'
  rw [pid, time]

namespace ManagedProviderRequest

variable {r r' : ManagedProviderRequest}

def grant (r : ManagedProviderRequest) : ManagedProviderRequest :=
  { r with grantSignature := "", idempotencyKey := "", signature := "" }

theorem ne_nil_of_closedSelectors {names : List String} (h : closedSelectors names = true) :
    names ≠ [] := by
  rintro rfl
  revert h
  decide

theorem selectors_injective {α : Type} {f : α → String} (inj : Function.Injective f)
    (selector : ∀ a, Invocations.validSelector (f a) = true) {l l' : List α}
    (h : closedSelectors (l.map f) = true) (h' : closedSelectors (l'.map f) = true)
    (heq : join ',' (l.map f) = join ',' (l'.map f)) : l = l' := by
  have free : ∀ l : List α, ∀ s ∈ l.map f, Free ',' s := by
    intro l
    refine free_selector ?_ (by decide) (by decide)
    intro s hs
    obtain ⟨a, -, rfl⟩ := List.mem_map.mp hs
    exact selector a
  exact (List.map_inj_right fun _ _ h => inj h).mp
    (join_injective (free l) (free l') (ne_nil_of_closedSelectors h) (ne_nil_of_closedSelectors h')
      heq)

theorem grant_eq (h : r.checkShape = .ok ()) (h' : r'.checkShape = .ok ())
    (heq : r.grantFields = r'.grantFields) : r.grant = r'.grant := by
  obtain ⟨-, -, -, -, -, -, -, hdomains, hkinds, -⟩ := checkShape_ok h
  obtain ⟨-, -, -, -, -, -, -, hdomains', hkinds', -⟩ := checkShape_ok h'
  obtain ⟨source, packageId, interface, assembly, entryType, domains, sensorTypes, invocationId,
    manifestSha256, dependencyKey, grantSignature, key, sig⟩ := r
  obtain ⟨source', packageId', interface', assembly', entryType', domains', sensorTypes',
    invocationId', manifestSha256', dependencyKey', grantSignature', key', sig'⟩ := r'
  simp only [grantFields, List.cons.injEq] at heq
  obtain ⟨-, rfl, rfl, rfl, -, rfl, -, rfl, rfl, hd, hk, -⟩ := heq
  have domains := selectors_injective HardwareDomain.asStr_injective
    HardwareDomain.asStr_selector hdomains hdomains' hd
  have kinds := selectors_injective SensorKind.asStr_injective SensorKind.asStr_selector hkinds
    hkinds' hk
  dsimp only at domains kinds
  subst domains kinds
  cases source
  cases source'
  cases interface
  cases interface'
  rfl

theorem unsigned_eq (h : r.checkShape = .ok ()) (h' : r'.checkShape = .ok ())
    (heq : r.fields = r'.fields) : { r with signature := "" } = { r' with signature := "" } := by
  have len : r.grantFields.length = r'.grantFields.length := rfl
  simp only [fields, List.cons_append, List.cons.injEq, true_and] at heq
  obtain ⟨hgrant, hrest⟩ := List.append_inj heq len
  simp only [List.cons.injEq, and_true] at hrest
  have grant := grant_eq h h' hgrant
  obtain ⟨source, packageId, interface, assembly, entryType, domains, sensorTypes, invocationId,
    manifestSha256, dependencyKey, grantSignature, key, sig⟩ := r
  obtain ⟨source', packageId', interface', assembly', entryType', domains', sensorTypes',
    invocationId', manifestSha256', dependencyKey', grantSignature', key', sig'⟩ := r'
  obtain ⟨rfl, rfl⟩ := hrest
  simp only [ManagedProviderRequest.grant, mk.injEq] at grant
  simp only [mk.injEq]
  tauto

end ManagedProviderRequest

theorem WireRequest.unsigned_eq {r r' : WireRequest} (h : r.checkShape = .ok ())
    (h' : r'.checkShape = .ok ()) (heq : r.fields = r'.fields) : r.unsigned = r'.unsigned := by
  have head : ∃ head ∈ r.kind, head ∈ r'.kind := by
    obtain ⟨head, hmem, rest, hfields⟩ := r.fields_eq
    obtain ⟨head', hmem', rest', hfields'⟩ := r'.fields_eq
    rw [hfields, hfields', List.cons.injEq] at heq
    exact ⟨head, hmem, heq.1 ▸ hmem'⟩
  cases r with
  | package r =>
    cases r' with
    | package r' => exact congrArg WireRequest.package (Request.unsigned_eq h h' heq)
    | _ => simp [kind] at head
  | managedStart r =>
    cases r' with
    | managedStart r' => exact congrArg WireRequest.managedStart (r.unsigned_eq heq)
    | _ => simp [kind] at head
  | managedStop r =>
    cases r' with
    | managedStop r' => exact congrArg WireRequest.managedStop (r.unsigned_eq heq)
    | _ => simp [kind] at head
  | managedProvider r =>
    cases r' with
    | managedProvider r' =>
      exact congrArg WireRequest.managedProvider (ManagedProviderRequest.unsigned_eq h h' heq)
    | _ => simp [kind] at head

/-! ## The grant of the server -/

/-- The dict of the grant as the server holds it. -/
def ManagedProviderRequest.serverGrant (r : ManagedProviderRequest) : Invocations.ProviderGrant where
  invocationId := r.invocationId
  manifestSha256 := r.manifestSha256
  dependencyKey := r.dependencyKey
  source := r.source.name
  packageId := r.packageId
  interface := r.interface.asStr
  assembly := r.assembly
  entryType := r.entryType
  domains := r.domains.map HardwareDomain.asStr
  sensorTypes := r.sensorTypes.map SensorKind.asStr
  serverSig := r.grantSignature

theorem canonicalSelectors_eq {names : List String} (h : closedSelectors names = true) :
    Invocations.canonicalSelectors names = names := by
  simp only [closedSelectors, Bool.and_eq_true] at h
  obtain ⟨-, hall⟩ := h
  have chain : names.IsChain (· < ·) := by
    induction names with
    | nil => exact .nil
    | cons a l ih =>
      cases l with
      | nil => exact .singleton a
      | cons b l =>
        simp only [List.tail_cons, List.zip_cons_cons, List.all_cons, Bool.and_eq_true,
          decide_eq_true_eq] at hall
        exact .cons_cons hall.1 (ih hall.2)
  have sorted := List.isChain_iff_pairwise.mp chain
  rw [Invocations.canonicalSelectors, List.dedup_eq_self.mpr (sorted.imp fun h => h.ne),
    List.Pairwise.insertionSort_eq (sorted.imp fun h => le_of_lt h)]

theorem closedSelectors_server {names : List String} (h : closedSelectors names = true)
    (selectors : ∀ s ∈ names, Invocations.validSelector s = true) :
    Invocations.closedSelectors names = true := by
  have ne := ManagedProviderRequest.ne_nil_of_closedSelectors h
  simp only [Invocations.closedSelectors, canonicalSelectors_eq h, decide_true, Bool.and_true,
    Bool.and_eq_true, List.all_eq_true]
  exact ⟨by simpa using ne, selectors⟩

namespace ManagedProviderRequest

variable {r : ManagedProviderRequest}

theorem serverText (r : ManagedProviderRequest) :
    Invocations.separator.intercalate ("managed-provider-grant" ::
      ([r.invocationId, r.manifestSha256, r.dependencyKey, r.source.name, r.packageId,
        r.interface.asStr, r.assembly, r.entryType] ++
        [",".intercalate (r.domains.map HardwareDomain.asStr),
          ",".intercalate (r.sensorTypes.map SensorKind.asStr)])) = r.canonicalGrantBody := by
  have comma : "," = String.singleton ',' := by decide
  rw [comma]
  rfl

theorem serverBody_eq {body : List Char}
    (h : Invocations.managedProviderGrantBody r.serverGrant = .ok body) :
    body = r.canonicalGrantBody.toList := by
  unfold Invocations.managedProviderGrantBody at h
  dsimp only at h
  split at h
  · cases h
  · split at h
    · cases h
    · rw [← Except.ok.inj h]
      exact congrArg String.toList (serverText r)

theorem serverBody_ok (h : r.checkShape = .ok ()) :
    Invocations.managedProviderGrantBody r.serverGrant = .ok r.canonicalGrantBody.toList := by
  have free := free_grantFields h
  obtain ⟨hid, hinv, hsha, hkey, hassembly, htype, -, hdomains, hkinds, -⟩ := checkShape_ok h
  have domains : Invocations.closedSelectors (r.domains.map HardwareDomain.asStr) = true := by
    refine closedSelectors_server hdomains ?_
    intro s hs
    obtain ⟨d, -, rfl⟩ := List.mem_map.mp hs
    exact d.asStr_selector
  have sensorTypes : Invocations.closedSelectors (r.sensorTypes.map SensorKind.asStr) = true := by
    refine closedSelectors_server hkinds ?_
    intro s hs
    obtain ⟨k, -, rfl⟩ := List.mem_map.mp hs
    exact k.asStr_selector
  have nonempty : ∀ s ∈ [r.invocationId, r.manifestSha256, r.dependencyKey, r.source.name,
      r.packageId, r.interface.asStr, r.assembly, r.entryType], s ≠ "" := by
    have invalid : isValidInvocationId "" = false ∧ isValidSha256 "" = false ∧
        isValidIdentifier "" = false ∧ isValidPackageId "" = false ∧
        isValidAssemblyName "" = false ∧ isValidDotnetType "" = false := by decide +kernel
    have source : r.source.name ≠ "" := by cases r.source; simp [Source.name]
    have interface : r.interface.asStr ≠ "" := by cases r.interface; simp [ProviderInterface.asStr]
    intro s hs heq
    subst heq
    simp only [List.mem_cons, List.not_mem_nil, or_false] at hs
    obtain hs | hs | hs | hs | hs | hs | hs | hs := hs
    · rw [← hs, invalid.1] at hinv
      cases hinv
    · rw [← hs, invalid.2.1] at hsha
      cases hsha
    · rw [← hs, invalid.2.2.1] at hkey
      cases hkey
    · exact source hs.symm
    · rw [← hs, invalid.2.2.2.1] at hid
      cases hid
    · exact interface hs.symm
    · rw [← hs, invalid.2.2.2.2.1] at hassembly
      cases hassembly
    · rw [← hs, invalid.2.2.2.2.2] at htype
      cases htype
  have hvalues : ([r.invocationId, r.manifestSha256, r.dependencyKey, r.source.name, r.packageId,
      r.interface.asStr, r.assembly, r.entryType].any
        (fun value => value = "" || value.toList.contains (Char.ofNat 0x1f))) = false := by
    rw [List.any_eq_false]
    intro s hs
    have hfree : Free separator s := free s (by
      simp only [List.mem_cons, List.not_mem_nil, or_false] at hs
      simp only [grantFields, List.mem_cons]
      tauto)
    have hcontains : s.toList.contains (Char.ofNat 0x1f) = false := by
      simpa [Free, separator] using hfree
    rw [hcontains, decide_eq_false (nonempty s hs)]
    decide
  have hselectors : (!Invocations.closedSelectors r.serverGrant.domains ||
      !Invocations.closedSelectors r.serverGrant.sensorTypes) = false := by
    rw [show Invocations.closedSelectors r.serverGrant.domains = true from domains,
      show Invocations.closedSelectors r.serverGrant.sensorTypes = true from sensorTypes]
    rfl
  unfold Invocations.managedProviderGrantBody
  dsimp only
  refine (if_neg (Bool.eq_false_iff.mp hvalues)).trans ?_
  rw [if_neg (Bool.eq_false_iff.mp hselectors)]
  exact congrArg (fun text : String => Except.ok text.toList) (serverText r)

end ManagedProviderRequest

/-! ## Signatures bind -/

/-- A body determines its request up to the signature, a grant body determines the grant, no grant
body is the body of a request, and the server writes the grant bodies of the helper. -/
theorem bodies_bind :
    (∀ r r' : WireRequest, r.checkShape = .ok () → r'.checkShape = .ok () →
      Utf8.bytes r.canonicalBody = Utf8.bytes r'.canonicalBody → r.unsigned = r'.unsigned) ∧
    (∀ g g' : ManagedProviderRequest, g.checkShape = .ok () → g'.checkShape = .ok () →
      Utf8.bytes g.canonicalGrantBody = Utf8.bytes g'.canonicalGrantBody → g.grant = g'.grant) ∧
    (∀ (g : ManagedProviderRequest) (r : WireRequest), g.checkShape = .ok () →
      r.checkShape = .ok () → Utf8.bytes g.canonicalGrantBody ≠ Utf8.bytes r.canonicalBody) ∧
    ∀ g : ManagedProviderRequest,
      (g.checkShape = .ok () →
        Invocations.managedProviderGrantBody g.serverGrant = .ok g.canonicalGrantBody.toList) ∧
      ∀ body, Invocations.managedProviderGrantBody g.serverGrant = .ok body →
        body = g.canonicalGrantBody.toList := by
  have bytes : Function.Injective Utf8.bytes := Utf8.bytes_strictMono.injective
  refine ⟨fun r r' h h' heq => ?_, fun g g' h h' heq => ?_, fun g r hg hr heq => ?_,
    fun g => ⟨ManagedProviderRequest.serverBody_ok, fun body => ManagedProviderRequest.serverBody_eq⟩⟩
  · have joined := bytes heq
    rw [r.canonicalBody_eq, r'.canonicalBody_eq] at joined
    have ne : ∀ r : WireRequest, r.fields ≠ [] := by
      intro r
      obtain ⟨head, -, rest, hfields⟩ := r.fields_eq
      rw [hfields]
      exact List.cons_ne_nil _ _
    exact WireRequest.unsigned_eq h h' (join_injective (WireRequest.free_fields h)
      (WireRequest.free_fields h') (ne r) (ne r') joined)
  · exact ManagedProviderRequest.grant_eq h h' (join_injective
      (ManagedProviderRequest.free_grantFields h) (ManagedProviderRequest.free_grantFields h')
      (List.cons_ne_nil _ _) (List.cons_ne_nil _ _) (bytes heq))
  · have joined := bytes heq
    rw [r.canonicalBody_eq] at joined
    obtain ⟨head, hmem, rest, hfields⟩ := r.fields_eq
    have same := join_injective (ManagedProviderRequest.free_grantFields hg)
      (WireRequest.free_fields hr) (List.cons_ne_nil _ _) (by rw [hfields]; exact List.cons_ne_nil _ _)
      joined
    rw [hfields, ManagedProviderRequest.grantFields, List.cons.injEq] at same
    rw [← same.1] at hmem
    revert hmem
    cases r <;> simp [WireRequest.kind]

def sampleStart (signature : String) : WireRequest :=
  .managedStart ⟨.winget, "Vendor.App", .session, "0123456789abcdef0123456789abcdef", signature⟩

def sampleProvider (key : String) : ManagedProviderRequest where
  source := .winget
  packageId := "Vendor.Sensors"
  interface := .hardwareSensorsV1
  assembly := "Sensors.dll"
  entryType := "Vendor.Sensors"
  domains := [.cpu, .gpu]
  sensorTypes := [.temperature]
  invocationId := "inv-0123456789abcdef01234567"
  manifestSha256 := "0123456789abcdef0123456789abcdef0123456789abcdef0123456789abcdef"
  dependencyKey := "sensors"
  grantSignature :=
    "0123456789abcdef0123456789abcdef0123456789abcdef0123456789abcdef0123456789abcdef012345"
  idempotencyKey := key
  signature := ""

theorem bodies_bind_sample :
    (sampleStart "a").unsigned = (sampleStart "b").unsigned ∧
      (sampleProvider "0123456789abcdef0123456789abcdef").grant =
        (sampleProvider "ffffffffffffffffffffffffffffffff").grant ∧
      Utf8.bytes (sampleProvider "0123456789abcdef0123456789abcdef").canonicalGrantBody ≠
        Utf8.bytes (sampleStart "a").canonicalBody ∧
      Invocations.managedProviderGrantBody
          (sampleProvider "0123456789abcdef0123456789abcdef").serverGrant =
        .ok (sampleProvider "0123456789abcdef0123456789abcdef").canonicalGrantBody.toList :=
  ⟨bodies_bind.1 _ _ (by decide +kernel) (by decide +kernel) rfl,
    bodies_bind.2.1 _ _ (by decide +kernel) (by decide +kernel) rfl,
    bodies_bind.2.2.1 _ _ (by decide +kernel) (by decide +kernel),
    (bodies_bind.2.2.2 _).1 (by decide +kernel)⟩

end Metnos.Helper
