import Mathlib.Data.List.Dedup
import Metnos.Helper.Protocol
import Metnos.Lib.Json
import Metnos.Lib.Texts
import Metnos.Lib.Utf8

/-!
# Helper.Service — the keys that were used

The journal is a file of lines, one for each key.  A key is appended before its action runs, and
when more keys than the limit are known the file is rewritten with the last ones.  A write may
stop after any prefix of its line; the rewrite goes to another file first, so that until it is
renamed a fault leaves the journal as it was.
-/

namespace Metnos.Helper

open Texts

abbrev Text := List Char

/-- `char::is_whitespace`. -/
def isWhitespace (c : Char) : Bool :=
  decide (9 ≤ c.toNat ∧ c.toNat ≤ 13) || decide (0x2000 ≤ c.toNat ∧ c.toNat ≤ 0x200a) ||
    [0x20, 0x85, 0xa0, 0x1680, 0x2028, 0x2029, 0x202f, 0x205f, 0x3000].contains c.toNat

/-- `str::trim`. -/
def trim (l : Text) : Text :=
  ((l.dropWhile isWhitespace).reverse.dropWhile isWhitespace).reverse

/-- `MAX_KEYS`. -/
def maxKeys : ℕ := 10000

/-- The keys of a journal; `trim` also removes what a line ending leaves. -/
def keys (text : Text) : List Text := ((lines '\n' text).map trim).filter (fun key => key ≠ [])

/-- `Journal`, with the text of its file. -/
structure Journal where
  text : Text
  seen : List Text
deriving DecidableEq

/-- `Journal::open`; a file that cannot be read is an error, one that is absent is not. -/
def Journal.open (file : Option Text) (readable : Bool) : Option Journal :=
  match file with
  | none => some ⟨[], []⟩
  | some text => if readable then some ⟨text, keys text⟩ else none

def Journal.alreadyUsed (journal : Journal) (key : String) : Bool :=
  journal.seen.contains key.toList

/-- How a write ends: at its end, after some bytes with an error, or after some bytes together
with the process. -/
inductive Written
  | done
  | failed (bytes : ℕ)
  | cut (bytes : ℕ)
deriving DecidableEq

def Written.part (line : Text) : Written → Text
  | .done => line
  | .failed bytes | .cut bytes => line.take bytes

def Written.complete (line : Text) : Written → Bool
  | .done => true
  | .failed bytes | .cut bytes => decide (line.length ≤ bytes)

/-- What the caller of `consume` sees; `ended` when the process did not live to see it. -/
inductive Consumed
  | ok | failed | ended
deriving DecidableEq

def kept (all : List Text) : List Text := all.drop (all.length - maxKeys)

/-- What `compact` renames to the journal. -/
def compact (text : Text) : Text := render '\n' (kept (keys text))

def keyLine (key : String) : Text := key.toList ++ ['\n']

/-- `Journal::consume`: the text of the file afterwards, and the outcome. -/
def Journal.consume (journal : Journal) (key : String) (append compaction : Written) :
    Text × Consumed :=
  let text := journal.text ++ append.part (keyLine key)
  match append with
  | .failed _ => (text, .failed)
  | .cut _ => (text, .ended)
  | .done =>
    if maxKeys < (key.toList :: journal.seen).dedup.length then
      match compaction with
      | .done => (compact text, .ok)
      | .failed _ => (text, .failed)
      | .cut _ => (text, .ended)
    else (text, .ok)

end Metnos.Helper

/-!
## One request from its pairing to its action

`handle` reads the pairing, opens the journal, authorises the request, consumes its key and runs
its action, in this order.  Decoding and the signature scheme are parameters, and so is what an
action does.
-/

namespace Metnos.Helper

/-- `hex`, `base64` and Ed25519. -/
structure Crypto where
  hexDecode : String → Option (List UInt8)
  base64Decode : String → Option (List UInt8)
  /-- `VerifyingKey::from_bytes` accepts the bytes. -/
  isKey : List UInt8 → Bool
  verify : List UInt8 → List ℕ → List UInt8 → Bool

structure Pairing where
  ownerSid : String
  publicKeyHex : String
  serverPublicKeyB64 : String
deriving DecidableEq

/-- `Pairing::load`, from what the file holds if it can be read. -/
def Pairing.load (stored : Option Pairing) : Option Pairing :=
  stored.filter (fun p => decide (p.ownerSid ≠ "") && decide (p.publicKeyHex ≠ ""))

namespace Pairing

variable (crypto : Crypto) (pairing : Pairing)

def isOwner (callerSid : String) : Bool :=
  decide (callerSid ≠ "") && decide (callerSid = pairing.ownerSid)

/-- A key of 32 bytes that the scheme accepts. -/
def verifyingKey (decoded : Option (List UInt8)) : Option (List UInt8) :=
  decoded.filter (fun bytes => decide (bytes.length = 32) && crypto.isKey bytes)

/-- A signature of 64 bytes that the key accepts for the body. -/
def accepts (key signature : Option (List UInt8)) (body : String) : Bool :=
  match key, signature.filter (fun bytes => decide (bytes.length = 64)) with
  | some key, some bytes => crypto.verify key (Utf8.bytes body) bytes
  | _, _ => false

def verifySignature (request : WireRequest) : Bool :=
  accepts crypto (verifyingKey crypto (crypto.hexDecode pairing.publicKeyHex))
    (crypto.hexDecode request.signature) request.canonicalBody

def verifyProviderGrant : WireRequest → Bool
  | .managedProvider provider =>
    accepts crypto (verifyingKey crypto (crypto.base64Decode pairing.serverPublicKeyB64))
      (crypto.base64Decode provider.grantSignature) provider.canonicalGrantBody
  | _ => true

end Pairing

/-- `pairing::authorize`. -/
def authorize (crypto : Crypto) (pairing : Pairing) (callerSid : String) (request : WireRequest)
    (alreadyUsed : String → Bool) : Except Refusal Unit := do
  request.checkShape
  refuseUnless .untrustedSignature (pairing.isOwner callerSid)
  refuseUnless .untrustedSignature (pairing.verifySignature crypto request)
  refuseUnless .untrustedGrant (pairing.verifyProviderGrant crypto request)
  refuseUnless .replayedRequest (!alreadyUsed request.idempotencyKey)

structure Outcome where
  ok : Bool
  errorCode : Option String
  exitCode : Option Int
  detail : String
  payload : Option Json

structure Response where
  ok : Bool
  errorCode : Option String
  exitCode : Option Int
  detail : String
  payload : Option Json
  helperVersion : String
  protocolVersion : ℕ

def codaUtile (output : String) : String :=
  let righe := ((Texts.lines '\n' output.toList).map trim).filter (fun l => l ≠ [])
  let utili := if 1 < righe.length then righe.drop 1 else righe
  let inizio := utili.drop (utili.length - 3)
  String.ofList (([' ', '·', ' '].intercalate inizio).take 300)

/-- What stays the same over all calls. -/
structure Host where
  crypto : Crypto
  version : String
  run : Action → Outcome

/-- `Response::stamped`. -/
def Host.stamped (host : Host) : Response :=
  ⟨false, none, none, "", none, host.version, 4⟩

def Host.refused (host : Host) (code : String) : Response :=
  { host.stamped with errorCode := some code }

/-- The arguments of `handle`, and how far its writes get. -/
structure Call where
  request : WireRequest
  callerSid : String
  pairing : Option Pairing
  readable : Bool
  append : Written
  compaction : Written

/-- What a call leaves behind. -/
structure Handled where
  file : Option Text
  /-- The action for which `run` was reached. -/
  ran : Option Action
  /-- The key whose line was written to its end. -/
  consumed : Option String
  /-- `none` when the process ended. -/
  response : Option Response

/-- The response to a request whose key was consumed. -/
def Host.respond (host : Host) (request : WireRequest) : Response :=
  let outcome := request.action.map host.run
  if request.isVersionQuery then
    { host.stamped with
      ok := outcome.elim true Outcome.ok
      errorCode := outcome.bind Outcome.errorCode
      detail := outcome.elim "" (fun o => codaUtile o.detail)
      payload := outcome.bind Outcome.payload }
  else
    { host.stamped with
      ok := outcome.any Outcome.ok
      errorCode := outcome.bind Outcome.errorCode
      exitCode := outcome.bind Outcome.exitCode
      detail := outcome.elim "" (fun o => codaUtile o.detail)
      payload := outcome.bind Outcome.payload }

/-- `service::handle`. -/
def Host.handle (host : Host) (file : Option Text) (call : Call) : Handled :=
  match Pairing.load call.pairing with
  | none => ⟨file, none, none, some (host.refused "not_paired")⟩
  | some pairing =>
    match Journal.open file call.readable with
    | none => ⟨file, none, none, some (host.refused "journal_unavailable")⟩
    | some journal =>
      match authorize host.crypto pairing call.callerSid call.request journal.alreadyUsed with
      | .error refusal => ⟨file, none, none, some (host.refused refusal.code)⟩
      | .ok () =>
        let key := call.request.idempotencyKey
        let consumed := if call.append.complete (keyLine key) then some key else none
        match journal.consume key call.append call.compaction with
        | (text, .ok) =>
          ⟨some text, call.request.action, consumed, some (host.respond call.request)⟩
        | (text, .failed) =>
          ⟨some text, none, consumed, some (host.refused "journal_write_failed")⟩
        | (text, .ended) => ⟨some text, none, consumed, none⟩

/-- The journal after a sequence of calls. -/
def Host.journalAfter (host : Host) (file : Option Text) (calls : List Call) : Option Text :=
  calls.foldl (fun file call => (host.handle file call).file) file

/-- The keys whose lines a sequence of calls writes to their ends. -/
def Host.consumedBy (host : Host) : Option Text → List Call → List String
  | _, [] => []
  | file, call :: calls =>
    (host.handle file call).consumed.toList ++
      host.consumedBy (host.handle file call).file calls

end Metnos.Helper
