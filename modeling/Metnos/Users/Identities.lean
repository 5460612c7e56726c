import Mathlib.Algebra.Order.Floor.Ring
import Mathlib.Data.Rat.Floor
import Metnos.Lib.Interleaving
import Metnos.Lib.Table

/-!
# Users.Identities — the users database, and the functions on it

Every statement outside a transaction, and every `BEGIN IMMEDIATE` block, is one atomic statement
here; the functions are programs over them.  A statement finds its surroundings in `Env`: the clock
and the random text that the process draws right before it, and whether something outside fails.
The texts of times are the seconds that they write.
-/

namespace Metnos.Users

inductive Role
  | host | guest
deriving DecidableEq

inductive AutonomyLevel
  | readOnly | restricted | full
deriving DecidableEq

inductive Channel
  | telegram | mail | http
deriving DecidableEq

/-- `ROLES`. -/
def Role.ofText : String → Option Role
  | "host" => some .host
  | "guest" => some .guest
  | _ => none

/-- `AUTONOMY_LEVELS`. -/
def AutonomyLevel.ofText : String → Option AutonomyLevel
  | "read_only" => some .readOnly
  | "restricted" => some .restricted
  | "full" => some .full
  | _ => none

/-- `CHANNELS`. -/
def Channel.ofText : String → Option Channel
  | "telegram" => some .telegram
  | "mail" => some .mail
  | "http" => some .http
  | _ => none

inductive UsersError
  | emptyName
  | badName (name : String)
  | badRole (role : String)
  | badAutonomy (level : String)
  | badChannel (channel : String)
  | emptyRecipient
  | hostExists
  | ownerNotFound (ownerUserId : String)
  | nameExists (name : String)
  | userNotFound (userId : String)
  | alreadyPaired
  | invalidArguments
  | tokenUnknown
  | tokenExpired
  | unreadableTime
  | timeOverflow
  | integrity
  | outside (what : String)
deriving DecidableEq

/-! ## The tables -/

structure User where
  id : String
  name : String
  displayName : Option String
  role : Role
  ownerUserId : Option String
  autonomyLevel : AutonomyLevel
  createdAt : ℤ
  notes : Option String
  email : Option String
  deletingAt : Option ℤ
deriving DecidableEq

def User.marked (deletingAt : Option ℤ) (u : User) : User := { u with deletingAt := deletingAt }

/-- A row of `user_channels`. -/
structure Binding where
  userId : String
  channel : Channel
  recipientId : String
  verifiedAt : Option ℤ
  pairingToken : Option String
  pairingExpiresAt : Option ℤ
deriving DecidableEq

def Binding.key (b : Binding) : String × Channel := (b.userId, b.channel)

/-- `index` says whether `uq_user_channels_verified_recipient` is there. -/
structure Db where
  users : Table User String User.id
  channels : Table Binding (String × Channel) Binding.key
  tombstones : List (String × ℤ)
  index : Bool

/-- The row after its token was consumed for a recipient. -/
def Binding.paired (recipientId : String) (now : ℚ) (b : Binding) : Binding :=
  { b with
    recipientId := recipientId
    verifiedAt := some ⌊now⌋
    pairingToken := none
    pairingExpiresAt := none }

def Binding.unissued (b : Binding) : Binding :=
  { b with pairingToken := none, pairingExpiresAt := none }

def Binding.unverified (b : Binding) : Binding := { b with verifiedAt := none }

def Db.empty : Db := ⟨Table.empty, Table.empty, [], false⟩

/-- The columns of a new user that its creator gives. -/
structure NewUser where
  name : String
  displayName : Option String
  role : Role
  ownerUserId : Option String
  autonomyLevel : AutonomyLevel
  notes : Option String
  email : Option String

structure Env where
  now : ℚ
  random : String
  fault : Option String

/-! ## Statements and transactions -/

namespace Db

/-- The row of an `INSERT INTO users`. -/
def newRow (u : NewUser) (env : Env) : User :=
  ⟨env.random, u.name, u.displayName, u.role, u.ownerUserId, u.autonomyLevel, ⌊env.now⌋, u.notes,
    u.email, none⟩

/-- The insertion fails on a name or an id that is in use. -/
def insertUser (db : Db) (row : User) : Option Db :=
  if db.users.rows.any (·.name = row.name) then none
  else (db.users.insert? row).map fun users => { db with users := users }

/-- The row that the unique index would not accept beside the others. -/
def refuses (db : Db) (b : Binding) : Bool :=
  db.index && b.verifiedAt.isSome && b.recipientId ≠ "" && db.channels.rows.any fun x =>
    x.key ≠ b.key && x.verifiedAt.isSome && x.channel = b.channel && x.recipientId = b.recipientId

/-- A verified row of another user for the recipient. -/
def conflict (db : Db) (channel : Channel) (recipientId userId : String) : Bool :=
  db.channels.rows.any fun x => x.channel = channel && x.recipientId = recipientId &&
    x.verifiedAt.isSome && x.userId ≠ userId

/-- `_ensure_unique_verified_recipients`, after its look for the index: recipients that several
rows are verified for lose them all. -/
def ensureIndex (db : Db) : Db :=
  let duplicated (b : Binding) : Bool := b.recipientId ≠ "" && 1 < db.channels.count fun x =>
    x.verifiedAt.isSome && x.channel = b.channel && x.recipientId = b.recipientId
  { db with
    channels := db.channels.updateWhere duplicated Binding.unverified fun _ => rfl
    index := true }

/-- The transaction of `add_channel`. -/
def addChannel (db : Db) (userId : String) (channel : Channel) (recipientId : String)
    (verified : Bool) (now : ℚ) : Except UsersError (Binding × Db) :=
  let row : Binding :=
    ⟨userId, channel, recipientId, if verified then some ⌊now⌋ else none, none, none⟩
  if verified && db.conflict channel recipientId userId then .error .alreadyPaired
  else if db.refuses row then .error .alreadyPaired
  else .ok (row, { db with channels := db.channels.upsert row })

/-- The last second that `gmtime` takes. -/
def gmtimeLimit : ℤ := 67768036191676799

/-- The last second whose year has four digits, as `strptime` wants it. -/
def strptimeLimit : ℤ := 253402300799

def expiry (now : ℚ) (ttlS : ℤ) : ℤ := ⌊now + max 60 ttlS⌋

/-- The upsert of `issue_pairing_token`. -/
def issueToken (db : Db) (userId : String) (channel : Channel) (ttlS : ℤ) (env : Env) :
    Except UsersError Db :=
  let row : Binding :=
    ⟨userId, channel, "", none, some env.random, some (expiry env.now ttlS)⟩
  if gmtimeLimit < expiry env.now ttlS then .error .timeOverflow
  else .ok { db with channels := db.channels.upsert row }

def pending (db : Db) (channel : Channel) (token : String) : Option Binding :=
  db.channels.rows.find? fun b => b.channel = channel && b.pairingToken = some token

/-- The transaction of `consume_pairing_token`.  An expired token is cleared, and the call raises all
the same. -/
def consumeToken (db : Db) (channel : Channel) (recipientId token : String) (now : ℚ) :
    Except UsersError (Option User) × Db :=
  match db.pending channel token with
  | none => (.error .tokenUnknown, db)
  | some row =>
    if row.pairingExpiresAt.any (strptimeLimit < ·) then (.error .unreadableTime, db)
    else if row.pairingExpiresAt.any fun e : ℤ => (e : ℚ) < now then
      (.error .tokenExpired, { db with
        channels := db.channels.updateWhere (·.key = row.key) Binding.unissued fun _ => rfl })
    else if db.conflict channel recipientId row.userId then (.error .alreadyPaired, db)
    else if db.refuses (row.paired recipientId now) then (.error .integrity, db)
    else
      match db.channels.cas row.key (·.pairingToken = some token)
          (Binding.paired recipientId now) fun _ => rfl with
      | none => (.error .tokenUnknown, db)
      | some channels => (.ok ((db.users.find? row.userId).filter (·.deletingAt = none)),
          { db with channels := channels })

/-- The first transaction of `delete_user`: the user's channels, or none without such a user. -/
def markDeleting (db : Db) (userId : String) (now : ℚ) : Option (List Binding) × Db :=
  match db.users.find? userId with
  | none => (none, db)
  | some _ => (some (db.channels.rows.filter (·.userId = userId)), { db with
      users := db.users.updateWhere (·.id = userId) (User.marked (some ⌊now⌋)) fun _ => rfl })

/-- The last transaction of `delete_user`. -/
def finishDeletion (db : Db) (userId : String) (now : ℚ) : Bool × Db :=
  ((db.users.find? userId).isSome, { db with
    users := db.users.keep (·.id ≠ userId)
    channels := db.channels.keep (·.userId ≠ userId)
    tombstones := (userId, ⌊now⌋) :: db.tombstones.filter (·.1 ≠ userId) })

/-- What `delete_user` does when a purge fails. -/
def unmark (db : Db) (userId : String) : Db :=
  { db with users := db.users.updateWhere (·.id = userId) (User.marked none) fun _ => rfl }

/-- The owners that a verified recipient leads to, of which the query takes two. -/
def findByRecipient (db : Db) (channel : Channel) (recipientId : String) : List User :=
  (db.channels.rows.filterMap fun b =>
    if b.channel = channel ∧ b.recipientId = recipientId ∧ b.verifiedAt.isSome then
      (db.users.find? b.userId).filter (·.deletingAt = none)
    else none).take 2

end Db

inductive Statement
  | hasIndex
  | ensureIndex
  | countUsers
  | selectHost
  | selectOwner (userId : String)
  | insertUser (u : NewUser)
  | selectRow (userId : String)
  | selectUser (userId name : String)
  | listUsers (role : Role)
  | findByRecipient (channel : Channel) (recipientId : String)
  | selectChannel (userId : String) (channel : Channel)
  | addChannel (userId : String) (channel : Channel) (recipientId : String) (verified : Bool)
  | deleteChannel (userId : String) (channel : Channel)
  | issueToken (userId : String) (channel : Channel) (ttlS : ℤ)
  | consumeToken (channel : Channel) (recipientId token : String)
  | markDeleting (userId : String)
  | purge (userId : String) (channels : List Binding)
  | finishDeletion (userId : String)
  | unmark (userId : String)

abbrev Statement.Reply : Statement → Type
  | .hasIndex | .selectHost | .selectOwner _ | .deleteChannel .. | .finishDeletion _ => Bool
  | .ensureIndex | .purge .. | .unmark _ => Unit
  | .countUsers => ℕ
  | .insertUser _ | .issueToken .. => String
  | .selectRow _ | .selectUser .. | .consumeToken .. => Option User
  | .listUsers _ | .findByRecipient .. => List User
  | .selectChannel .. => Option Binding
  | .addChannel .. => Binding
  | .markDeleting _ => Option (List Binding)

/-- A statement that does not fail from outside.  What `delete_user` purges is in other stores. -/
def Statement.exec (env : Env) : (s : Statement) → Db → Except UsersError s.Reply × Db
  | .hasIndex, db => (.ok db.index, db)
  | .ensureIndex, db => (.ok (), db.ensureIndex)
  | .countUsers, db => (.ok db.users.rows.length, db)
  | .selectHost, db => (.ok (db.users.rows.any (·.role = .host)), db)
  | .selectOwner id, db => (.ok (db.users.find? id).isSome, db)
  | .insertUser u, db =>
    match db.insertUser (Db.newRow u env) with
    | some db' => (.ok env.random, db')
    | none => (.error .integrity, db)
  | .selectRow id, db => (.ok (db.users.find? id), db)
  | .selectUser id name, db =>
    -- `OR` looks the id up first, then the name
    (.ok ((db.users.find? id).filter (·.deletingAt = none) <|>
      db.users.rows.find? fun u => u.name = name && u.deletingAt = none), db)
  | .listUsers role, db => (.ok ((db.users.rows.filter fun u =>
      u.deletingAt = none && u.role = role).insertionSort (·.createdAt ≤ ·.createdAt)), db)
  | .findByRecipient channel recipientId, db => (.ok (db.findByRecipient channel recipientId), db)
  | .selectChannel id channel, db => (.ok (db.channels.find? (id, channel)), db)
  | .addChannel id channel recipientId verified, db =>
    match db.addChannel id channel recipientId verified env.now with
    | .ok (row, db') => (.ok row, db')
    | .error e => (.error e, db)
  | .deleteChannel id channel, db => (.ok (db.channels.find? (id, channel)).isSome,
      { db with channels := db.channels.keep (·.key ≠ (id, channel)) })
  | .issueToken id channel ttlS, db =>
    match db.issueToken id channel ttlS env with
    | .ok db' => (.ok env.random, db')
    | .error e => (.error e, db)
  | .consumeToken channel recipientId token, db =>
    db.consumeToken channel recipientId token env.now
  | .markDeleting id, db => (.ok (db.markDeleting id env.now).1, (db.markDeleting id env.now).2)
  | .purge .., db => (.ok (), db)
  | .finishDeletion id, db =>
    (.ok (db.finishDeletion id env.now).1, (db.finishDeletion id env.now).2)
  | .unmark id, db => (.ok (), db.unmark id)

/-- A statement that fails leaves the database as it was. -/
def Statement.act (env : Env) (s : Statement) (db : Db) : Except UsersError s.Reply × Db :=
  match env.fault with
  | some what => (.error (.outside what), db)
  | none => s.exec env db

/-! ## The functions -/

abbrev Program := Interleaving.Program Statement Statement.Reply UsersError

def statement (s : Statement) : Program s.Reply := Interleaving.Program.statement s

/-- The methods of a string, of the interpreter. -/
structure Text where
  strip : String → String
  lower : String → String
  capitalize : String → String
  isalnum : Char → Bool

section

variable (T : Text)

/-- `_normalize_name`. -/
def normalizeName (name : String) : Except UsersError String :=
  let n := T.lower (T.strip name)
  if n = "" then .error .emptyName
  else if n.toList.all fun c => T.isalnum c || c = '_' then .ok n
  else .error (.badName name)

/-- `_open_db`. -/
def openDb : Program Unit := do
  let index ← statement .hasIndex
  if index then return
  statement .ensureIndex

/-- The bootstrap user; `user` is the variable `USER` of the process. -/
def hostBootstrap (user : Option String) : NewUser :=
  let raw := T.strip (if user.getD "" = "" then "host" else user.getD "")
  let hostName := match normalizeName T raw with
    | .ok n => n
    | .error _ => "host"
  ⟨hostName, some (T.capitalize hostName), .host, none, .full, some "host bootstrap", none⟩

def initDb (user : Option String) : Program Unit := do
  openDb
  let n ← statement .countUsers
  if n > 0 then return
  let _ ← statement (.insertUser (hostBootstrap T user))

/-- Of `create_user`: there is one host only. -/
def checkHost (role : Role) : Program Unit := do
  if role = .host then
    let existing ← statement .selectHost
    if existing then throw .hostExists

/-- Of `create_user`: an owner that is named exists. -/
def checkOwner (ownerUserId : Option String) : Program Unit := do
  if ownerUserId.getD "" ≠ "" then
    let found ← statement (.selectOwner (ownerUserId.getD ""))
    if !found then throw (.ownerNotFound (ownerUserId.getD ""))

def createUser (user : Option String) (name : String) (displayName : Option String)
    (role : String) (ownerUserId : Option String) (autonomyLevel : String)
    (notes email : Option String) : Program (Option User) := do
  let some r := Role.ofText role | throw (.badRole role)
  let some a := AutonomyLevel.ofText autonomyLevel | throw (.badAutonomy autonomyLevel)
  let normName ← Interleaving.Program.done (normalizeName T name)
  initDb T user
  openDb
  checkHost r
  checkOwner ownerUserId
  let uid ← tryCatch
    (statement (.insertUser ⟨normName, displayName, r, ownerUserId, a, notes, email⟩))
    fun e => throw (if e = .integrity then .nameExists normName else e)
  statement (.selectRow uid)

def getUser (user : Option String) (userIdOrName : String) : Program (Option User) := do
  if userIdOrName = "" then return none
  initDb T user
  openDb
  statement (.selectUser userIdOrName (T.lower userIdOrName))

/-- `list_users` for a role. -/
def listUsers (user : Option String) (role : Role) : Program (List User) := do
  initDb T user
  openDb
  statement (.listUsers role)

/-- A purge that fails leaves the user there, unmarked. -/
def deleteUser (user : Option String) (userId : String) : Program Bool := do
  if userId = "" then return false
  initDb T user
  openDb
  match ← statement (.markDeleting userId) with
  | none => return false
  | some channels =>
    tryCatch (do
      statement (.purge userId channels)
      openDb
      statement (.finishDeletion userId))
      fun e => do
        openDb
        statement (.unmark userId)
        throw e

def addChannel (user : Option String) (userId channel recipientId : String) (verified : Bool) :
    Program Binding := do
  let some c := Channel.ofText channel | throw (.badChannel channel)
  if recipientId = "" then throw .emptyRecipient
  let some u ← getUser T user userId | throw (.userNotFound userId)
  openDb
  statement (.addChannel u.id c recipientId verified)

def getChannel (userId : String) (channel : Channel) : Program (Option Binding) := do
  openDb
  statement (.selectChannel userId channel)

/-- No row has a channel that is none of `CHANNELS`. -/
def removeChannel (userId channel : String) : Program Bool := do
  openDb
  let some c := Channel.ofText channel | return false
  statement (.deleteChannel userId c)

def issuePairingToken (user : Option String) (userId channel : String) (ttlS : ℤ) :
    Program String := do
  let some c := Channel.ofText channel | throw (.badChannel channel)
  let some u ← getUser T user userId | throw (.userNotFound userId)
  openDb
  statement (.issueToken u.id c ttlS)

/-- The empty object that is returned for a user who is gone is `none`. -/
def consumePairingToken (channel recipientId token : String) : Program (Option User) := do
  let some c := Channel.ofText channel | throw .invalidArguments
  if token = "" || recipientId = "" then throw .invalidArguments
  openDb
  statement (.consumeToken c recipientId token)

def findUserByRecipient (user : Option String) (channel : Channel) (recipientId : String) :
    Program (Option User) := do
  if recipientId = "" then return none
  initDb T user
  openDb
  match ← statement (.findByRecipient channel recipientId) with
  | [u] => return some u
  | _ => return none

def autobindHostTelegram (user : Option String) (defaultChatId : String) :
    Program (Option Binding) := do
  if defaultChatId = "" then return none
  initDb T user
  match ← findUserByRecipient T user .telegram defaultChatId with
  | some existing => getChannel existing.id .telegram
  | none =>
    match ← listUsers T user .host with
    | [] => return none
    | host :: _ =>
      let bound ← addChannel T user host.id "telegram" defaultChatId true
      return some bound

end

end Metnos.Users
