import Metnos.Users.Identities

/-!
# Users.Interleaved — the functions of any number of processes, interleaved

The state that the processes share is the database, with a record of the tokens that were issued and
consumed.  The claims about it are `Sound`.  A statement relies on what its function has read before
it, and nobody checks again: `relied` is what must still be so when the statement runs.
-/

namespace Metnos.Users

open Interleaving

/-! ## The calls -/

inductive Operation
  | createUser (name : String) (displayName : Option String) (role : String)
    (ownerUserId : Option String) (autonomyLevel : String) (notes email : Option String)
  | deleteUser (userId : String)
  | addChannel (userId channel recipientId : String) (verified : Bool)
  | removeChannel (userId channel : String)
  | issuePairingToken (userId channel : String) (ttlS : ℤ)
  | consumePairingToken (channel recipientId token : String)
  | autobindHostTelegram (defaultChatId : String)

/-- A call, in a process with the variable `USER`. -/
structure Call where
  user : Option String
  op : Operation

def body (T : Text) (c : Call) : Program Unit :=
  match c.op with
  | .createUser name displayName role ownerUserId autonomyLevel notes email =>
    discard (createUser T c.user name displayName role ownerUserId autonomyLevel notes email)
  | .deleteUser userId => discard (deleteUser T c.user userId)
  | .addChannel userId channel recipientId verified =>
    discard (addChannel T c.user userId channel recipientId verified)
  | .removeChannel userId channel => discard (removeChannel userId channel)
  | .issuePairingToken userId channel ttlS =>
    discard (issuePairingToken T c.user userId channel ttlS)
  | .consumePairingToken channel recipientId token =>
    discard (consumePairingToken channel recipientId token)
  | .autobindHostTelegram defaultChatId => discard (autobindHostTelegram T c.user defaultChatId)

/-! ## The shared state -/

structure Issue where
  token : String
  userId : String
  channel : Channel
  expires : ℤ

/-- `present` says whether the user's row was there. -/
structure Consumption where
  token : String
  userId : String
  channel : Channel
  recipientId : String
  now : ℚ
  present : Bool

def Statement.issues (env : Env) : (s : Statement) → Except UsersError s.Reply → List Issue
  | .issueToken userId channel ttlS, .ok token =>
    [⟨token, userId, channel, Db.expiry env.now ttlS⟩]
  | _, _ => []

def Statement.consumptions (env : Env) (db : Db) :
    (s : Statement) → Except UsersError s.Reply → List Consumption
  | .consumeToken channel recipientId token, .ok _ =>
    (db.pending channel token).toList.map fun row =>
      ⟨token, row.userId, channel, recipientId, env.now, (db.users.find? row.userId).isSome⟩
  | _, _ => []

structure Shared where
  db : Db
  issues : List Issue
  consumptions : List Consumption
  drawn : List String

def Shared.empty : Shared := ⟨Db.empty, [], [], []⟩

/-- Ids and tokens are random texts that are never drawn twice. -/
def semantics : Semantics Statement Statement.Reply UsersError Env Shared where
  act env s X :=
    let outcome := s.act env X.db
    (outcome.1, ⟨outcome.2, X.issues ++ s.issues env outcome.1,
      X.consumptions ++ s.consumptions env X.db outcome.1, env.random :: X.drawn⟩)
  admits X env := env.random ∉ X.drawn

abbrev Identities := System Statement Statement.Reply UsersError Shared

def start : Identities := ⟨Shared.empty, []⟩

abbrev run (T : Text) (events : List (Event Call Env)) : Identities :=
  start.run semantics (body T) events

/-- One host, no channel without its user, one owner for a verified recipient; and a token is
consumed once, before it expires, for the user it was issued to, who is there. -/
structure Sound (X : Shared) : Prop where
  oneHost : ∀ u ∈ X.db.users.rows, ∀ v ∈ X.db.users.rows, u.role = .host → v.role = .host → u = v
  owned : ∀ b ∈ X.db.channels.rows, ∃ u ∈ X.db.users.rows, u.id = b.userId
  oneVerified : ∀ b ∈ X.db.channels.rows, ∀ d ∈ X.db.channels.rows, b.verifiedAt.isSome →
    d.verifiedAt.isSome → b.channel = d.channel → b.recipientId = d.recipientId →
    b.recipientId ≠ "" → b = d
  once : (X.consumptions.map (·.token)).Nodup
  issued : ∀ c ∈ X.consumptions, c.present = true ∧ ∃ i ∈ X.issues,
    i.token = c.token ∧ i.userId = c.userId ∧ i.channel = c.channel ∧ c.now ≤ i.expires

/-- What must be so when a statement runs: there is no host beside a new one, and a channel that is
written has its user. -/
def Statement.relied (env : Env) (db : Db) : Statement → Prop
  | .insertUser u => u.role = .host → (∀ v ∈ db.users.rows, v.name ≠ u.name) →
    ∀ v ∈ db.users.rows, v.role ≠ .host
  | .addChannel userId channel recipientId verified =>
    ¬ (verified && db.conflict channel recipientId userId) → ∃ u ∈ db.users.rows, u.id = userId
  | .issueToken userId _ ttlS =>
    Db.expiry env.now ttlS ≤ Db.gmtimeLimit → ∃ u ∈ db.users.rows, u.id = userId
  | _ => True

/-- A statement that fails writes nothing. -/
def relied (X : Shared) (env : Env) (s : Statement) : Prop :=
  env.fault = none → s.relied env X.db

/-! ## What a statement does -/

/-- A row that a statement has left of a row: never more verified, and with the same token or none. -/
structure Binding.Fades (b b' : Binding) : Prop where
  key : b'.key = b.key
  recipientId : b'.recipientId = b.recipientId
  verified : b'.verifiedAt.isSome → b.verifiedAt.isSome
  token : b'.pairingToken = none ∨
    b'.pairingToken = b.pairingToken ∧ b'.pairingExpiresAt = b.pairingExpiresAt

/-- No new user or channel, and no user gone whose channels are left. -/
structure Fades (db db' : Db) : Prop where
  users : ∀ u' ∈ db'.users.rows, ∃ u ∈ db.users.rows, u'.id = u.id ∧ u'.role = u.role
  channels : ∀ b' ∈ db'.channels.rows, ∃ b ∈ db.channels.rows, b.Fades b'
  owners : ∀ b' ∈ db'.channels.rows, ∀ u ∈ db.users.rows, u.id = b'.userId →
    ∃ u' ∈ db'.users.rows, u'.id = u.id

variable {db db' : Db} {env : Env} {X : Shared} {T : Text} {s : Statement}

theorem Binding.Fades.refl (b : Binding) : b.Fades b := ⟨rfl, rfl, id, .inr ⟨rfl, rfl⟩⟩

theorem Binding.fades_unverified (b : Binding) : b.Fades b.unverified :=
  ⟨rfl, rfl, fun h => (by cases h), .inr ⟨rfl, rfl⟩⟩

theorem Binding.fades_unissued (b : Binding) : b.Fades b.unissued := ⟨rfl, rfl, id, .inl rfl⟩

theorem Fades.of_users (channels : db'.channels = db.channels)
    (users : ∀ u' ∈ db'.users.rows, ∃ u ∈ db.users.rows, u'.id = u.id ∧ u'.role = u.role)
    (owners : ∀ u ∈ db.users.rows, ∃ u' ∈ db'.users.rows, u'.id = u.id) : Fades db db' :=
  ⟨users, fun b hb => ⟨b, channels ▸ hb, .refl b⟩, fun _ _ u hu _ => owners u hu⟩

theorem Fades.of_channels (users : db'.users = db.users)
    (channels : ∀ b' ∈ db'.channels.rows, ∃ b ∈ db.channels.rows, b.Fades b') : Fades db db' :=
  ⟨fun u hu => ⟨u, users ▸ hu, rfl, rfl⟩, channels, fun _ _ u hu _ => ⟨u, users ▸ hu, rfl⟩⟩

theorem Fades.refl (db : Db) : Fades db db := .of_channels rfl fun b hb => ⟨b, hb, .refl b⟩

theorem fades_updateChannels {p : Binding → Bool} {f : Binding → Binding}
    (hf : ∀ b, (f b).key = b.key) (h : ∀ b : Binding, b.Fades (f b)) (users : db'.users = db.users)
    (channels : db'.channels = db.channels.updateWhere p f hf) : Fades db db' := by
  refine .of_channels users fun b' hb' => ?_
  rw [channels, Table.mem_updateWhere] at hb'
  obtain ⟨b, hb, rfl⟩ := hb'
  refine ⟨b, hb, ?_⟩
  split
  · exact h b
  · exact .refl b

theorem fades_marked (id : String) (stamp : Option ℤ) : Fades db { db with
    users := db.users.updateWhere (·.id = id) (User.marked stamp) fun _ => rfl } := by
  have same : ∀ u : User, (if decide (u.id = id) then u.marked stamp else u).id = u.id ∧
      (if decide (u.id = id) then u.marked stamp else u).role = u.role := by
    intro u
    split <;> exact ⟨rfl, rfl⟩
  refine .of_users rfl (fun u' hu' => ?_) fun u hu => ?_
  · obtain ⟨u, hu, rfl⟩ := List.mem_map.mp hu'
    exact ⟨u, hu, same u⟩
  · exact ⟨_, List.mem_map_of_mem hu, (same u).1⟩

theorem fades_finishDeletion (id : String) (now : ℚ) : Fades db (db.finishDeletion id now).2 := by
  refine ⟨fun u hu => ⟨u, List.mem_of_mem_filter hu, rfl, rfl⟩,
    fun b hb => ⟨b, List.mem_of_mem_filter hb, .refl b⟩, fun b hb u hu owner => ⟨u, ?_, rfl⟩⟩
  have kept := (List.mem_filter.mp hb).2
  exact List.mem_filter.mpr ⟨hu, by simpa [owner] using kept⟩

/-- The statements that may write something new. -/
def Statement.writes : Statement → Bool
  | .insertUser _ | .addChannel .. | .issueToken .. | .consumeToken .. => true
  | _ => false

theorem exec_fades (quiet : s.writes = false) : Fades db (s.exec env db).2 := by
  cases s with
  | insertUser | addChannel | issueToken | consumeToken => cases quiet
  | ensureIndex =>
    exact fades_updateChannels (f := Binding.unverified) (fun _ => rfl) Binding.fades_unverified
      rfl rfl
  | deleteChannel =>
    exact .of_channels rfl fun b hb => ⟨b, List.mem_of_mem_filter hb, .refl b⟩
  | markDeleting id =>
    show Fades db (db.markDeleting id env.now).2
    unfold Db.markDeleting
    split
    · exact .refl db
    · exact fades_marked id _
  | finishDeletion id => exact fades_finishDeletion id env.now
  | unmark id => exact fades_marked id none
  | _ => exact .refl db

/-- A row that is written in the place of the row with its key. -/
structure Puts (db : Db) (row : Binding) (db' : Db) : Prop where
  users : db'.users = db.users
  channels : ∀ b ∈ db'.channels.rows, b = row ∨ (b ∈ db.channels.rows ∧ b.key ≠ row.key)
  unique : row.verifiedAt.isSome → db.conflict row.channel row.recipientId row.userId = false

theorem conflict_of_refuses {row : Binding} (h : db.refuses row = true) :
    db.conflict row.channel row.recipientId row.userId = true := by
  simp only [Db.refuses, Bool.and_eq_true, List.any_eq_true, decide_eq_true_eq] at h
  obtain ⟨-, x, hx, ⟨⟨key, verified⟩, channel⟩, recipient⟩ := h
  unfold Db.conflict
  rw [List.any_eq_true]
  refine ⟨x, hx, ?_⟩
  have other : x.userId ≠ row.userId := fun same => key (Prod.ext same channel)
  simp [channel, recipient, verified, other]

theorem insertUser_some {row : User} (h : db.insertUser row = some db') :
    db'.users.rows = db.users.rows ++ [row] ∧ db'.channels = db.channels ∧
      ∀ v ∈ db.users.rows, v.name ≠ row.name := by
  unfold Db.insertUser at h
  split_ifs at h with used
  obtain ⟨users, inserted, rfl⟩ := Option.map_eq_some_iff.mp h
  refine ⟨(Table.insert?_some inserted).2, rfl, fun v hv same => used ?_⟩
  exact List.any_eq_true.mpr ⟨v, hv, by simp [same]⟩

theorem insertUser_free (row : User) (names : ∀ v ∈ db.users.rows, v.name ≠ row.name)
    (ids : ∀ v ∈ db.users.rows, v.id ≠ row.id) : ∃ db', db.insertUser row = some db' := by
  have free : ¬ db.users.rows.any (·.name = row.name) = true := by
    simpa [List.any_eq_true] using names
  have unused : row.id ∉ db.users.rows.map User.id := by
    simpa using ids
  unfold Db.insertUser Table.insert?
  rw [if_neg free, dif_neg unused]
  exact ⟨_, rfl⟩

theorem issueToken_ok {userId : String} {channel : Channel} {ttlS : ℤ}
    (h : db.issueToken userId channel ttlS env = .ok db') :
    Db.expiry env.now ttlS ≤ Db.gmtimeLimit ∧ Puts db ⟨userId, channel, "", none,
      some env.random, some (Db.expiry env.now ttlS)⟩ db' := by
  unfold Db.issueToken at h
  split_ifs at h with late
  cases h
  exact ⟨not_lt.mp late, rfl, fun b hb => Table.mem_upsert.mp hb, fun verified => (by cases verified)⟩

theorem issueToken_inTime (db : Db) (userId : String) (channel : Channel) {ttlS : ℤ}
    (h : Db.expiry env.now ttlS ≤ Db.gmtimeLimit) :
    ∃ row db', db.issueToken userId channel ttlS env = .ok db' ∧ row.userId = userId ∧
      db'.users = db.users ∧ row ∈ db'.channels.rows := by
  unfold Db.issueToken
  rw [if_neg (not_lt.mpr h)]
  exact ⟨⟨userId, _, _, _, _, _⟩, _, rfl, rfl, rfl, Table.mem_upsert.mpr (.inl rfl)⟩

theorem consumeToken_cases (db : Db) (channel : Channel) (recipientId token : String) (now : ℚ) :
    (∃ e, (db.consumeToken channel recipientId token now).1 = .error e ∧
      Fades db (db.consumeToken channel recipientId token now).2) ∨
    ∃ row u, db.pending channel token = some row ∧
      (db.consumeToken channel recipientId token now).1 = .ok u ∧
      (∀ e, row.pairingExpiresAt = some e → now ≤ e) ∧
      Puts db (row.paired recipientId now) (db.consumeToken channel recipientId token now).2 := by
  unfold Db.consumeToken
  split
  · exact .inl ⟨_, rfl, .refl db⟩
  · rename_i row waits
    split_ifs with unreadable expired conflict refused
    · exact .inl ⟨_, rfl, .refl db⟩
    · exact .inl ⟨_, rfl, fades_updateChannels (f := Binding.unissued) (fun _ => rfl)
        Binding.fades_unissued rfl rfl⟩
    · exact .inl ⟨_, rfl, .refl db⟩
    · exact .inl ⟨_, rfl, .refl db⟩
    · split
      · exact .inl ⟨_, rfl, .refl db⟩
      · rename_i channels updated
        obtain ⟨found, hfound, -, rfl⟩ := Table.cas_some updated
        have same : found = row := by
          have member : row ∈ db.channels.rows := List.mem_of_find?_eq_some waits
          rw [Table.find?_of_mem member] at hfound
          exact (Option.some.inj hfound).symm
        subst same
        refine .inr ⟨found, _, waits, rfl, fun e he => ?_, rfl, fun b hb => ?_, fun _ => ?_⟩
        · rw [he] at expired
          simpa using expired
        · obtain ⟨x, hx, rfl⟩ := List.mem_map.mp hb
          by_cases key : x.key = found.key
          · left
            have : x = found := List.inj_on_of_nodup_map db.channels.nodup hx
              (List.mem_of_find?_eq_some waits) key
            simp [this]
          · right
            simp [key, hx]
            exact key
        · have ofChannel : found.channel = channel := by
            have := List.find?_some waits
            simp only [Bool.and_eq_true, decide_eq_true_eq] at this
            exact this.1
          show db.conflict found.channel recipientId found.userId = false
          rw [ofChannel]
          exact Bool.not_eq_true _ ▸ conflict

theorem addChannel_cases (db : Db) (userId : String) (channel : Channel) (recipientId : String)
    (verified : Bool) (now : ℚ) :
    ((verified && db.conflict channel recipientId userId) = true ∧
      db.addChannel userId channel recipientId verified now = .error .alreadyPaired) ∨
    ∃ row db', db.addChannel userId channel recipientId verified now = .ok (row, db') ∧
      (verified && db.conflict channel recipientId userId) = false ∧
      row.userId = userId ∧ row.pairingToken = none ∧ row ∈ db'.channels.rows ∧
      Puts db row db' := by
  unfold Db.addChannel
  by_cases conflict : (verified && db.conflict channel recipientId userId) = true
  · exact .inl ⟨conflict, if_pos conflict⟩
  · right
    rw [if_neg conflict]
    rw [Bool.not_eq_true] at conflict
    have unique : (if verified then some ⌊now⌋ else none : Option ℤ).isSome →
        db.conflict channel recipientId userId = false := by
      cases verified with
      | false => exact fun h => (by cases h)
      | true => exact fun _ => conflict
    have accepted : ¬ db.refuses ⟨userId, channel, recipientId,
        if verified then some ⌊now⌋ else none, none, none⟩ = true := by
      intro refused
      have verifies : (if verified then some ⌊now⌋ else none : Option ℤ).isSome = true := by
        simp only [Db.refuses, Bool.and_eq_true] at refused
        exact refused.1.1.2
      have := unique verifies
      rw [conflict_of_refuses refused] at this
      cases this
    rw [if_neg accepted]
    exact ⟨_, _, rfl, conflict, rfl, rfl, Table.mem_upsert.mpr (.inl rfl),
      rfl, fun b hb => Table.mem_upsert.mp hb, unique⟩

/-- What a statement leaves behind. -/
inductive Change (env : Env) (X : Shared) : Statement → Shared → Prop
  | fade {s : Statement} {db' : Db} (fades : Fades X.db db') :
    Change env X s ⟨db', X.issues, X.consumptions, env.random :: X.drawn⟩
  | insertUser {u : NewUser} {db' : Db} (fault : env.fault = none)
    (rows : db'.users.rows = X.db.users.rows ++ [Db.newRow u env])
    (channels : db'.channels = X.db.channels) (names : ∀ v ∈ X.db.users.rows, v.name ≠ u.name) :
    Change env X (.insertUser u) ⟨db', X.issues, X.consumptions, env.random :: X.drawn⟩
  | addChannel {userId : String} {channel : Channel} {recipientId : String} {verified : Bool}
    {row : Binding} {db' : Db} (fault : env.fault = none)
    (accepted : (verified && X.db.conflict channel recipientId userId) = false)
    (user : row.userId = userId) (token : row.pairingToken = none) (puts : Puts X.db row db') :
    Change env X (.addChannel userId channel recipientId verified)
      ⟨db', X.issues, X.consumptions, env.random :: X.drawn⟩
  | issueToken {userId : String} {channel : Channel} {ttlS expires : ℤ} {db' : Db}
    (fault : env.fault = none) (inTime : Db.expiry env.now ttlS ≤ Db.gmtimeLimit)
    (puts : Puts X.db ⟨userId, channel, "", none, some env.random, some expires⟩ db') :
    Change env X (.issueToken userId channel ttlS)
      ⟨db', X.issues ++ [⟨env.random, userId, channel, expires⟩], X.consumptions,
        env.random :: X.drawn⟩
  | consumeToken {channel : Channel} {recipientId token : String} {row : Binding} {db' : Db}
    (waits : X.db.pending channel token = some row)
    (valid : ∀ e, row.pairingExpiresAt = some e → env.now ≤ e)
    (puts : Puts X.db (row.paired recipientId env.now) db') :
    Change env X (.consumeToken channel recipientId token)
      ⟨db', X.issues, X.consumptions ++ [⟨token, row.userId, channel, recipientId, env.now,
        (X.db.users.find? row.userId).isSome⟩], env.random :: X.drawn⟩

theorem issues_eq_nil {r : Except UsersError s.Reply}
    (h : s.writes = false ∨ ∃ e, r = .error e) : s.issues env r = [] := by
  rcases h with quiet | ⟨e, rfl⟩
  · cases s <;> first | rfl | cases quiet
  · cases s <;> rfl

theorem consumptions_eq_nil {r : Except UsersError s.Reply}
    (h : s.writes = false ∨ ∃ e, r = .error e) : s.consumptions env db r = [] := by
  rcases h with quiet | ⟨e, rfl⟩
  · cases s <;> first | rfl | cases quiet
  · cases s <;> rfl

theorem Change.unrecorded (h : s.writes = false ∨ ∃ e, (s.act env X.db).1 = .error e)
    (fades : Fades X.db (s.act env X.db).2) : Change env X s (semantics.act env s X).2 := by
  unfold semantics
  dsimp only
  rw [issues_eq_nil h, consumptions_eq_nil h, List.append_nil, List.append_nil]
  exact .fade fades

theorem Change.failed {e : UsersError} (h : s.act env X.db = (.error e, X.db)) :
    Change env X s (semantics.act env s X).2 := by
  refine .unrecorded (.inr ⟨e, by rw [h]⟩) ?_
  rw [h]
  exact .refl X.db

theorem act_eq_exec (fault : env.fault = none) : s.act env db = s.exec env db := by
  unfold Statement.act
  rw [fault]

theorem act_change (env : Env) (s : Statement) (X : Shared) :
    Change env X s (semantics.act env s X).2 := by
  cases fault : env.fault with
  | some what =>
    refine .failed (e := .outside what) ?_
    unfold Statement.act
    rw [fault]
  | none =>
    have acts := @act_eq_exec X.db env s fault
    cases s with
    | insertUser u =>
      simp only [Statement.exec] at acts
      cases inserted : X.db.insertUser (Db.newRow u env) with
      | none => exact .failed (acts.trans (by rw [inserted]))
      | some db' =>
        obtain ⟨rows, channels, names⟩ := insertUser_some inserted
        rw [inserted] at acts
        simp only [semantics, acts, Statement.issues, Statement.consumptions, List.append_nil]
        exact .insertUser fault rows channels names
    | addChannel userId channel recipientId verified =>
      simp only [Statement.exec] at acts
      rcases addChannel_cases X.db userId channel recipientId verified env.now with
        ⟨-, raised⟩ | ⟨row, db', written, accepted, user, token, -, puts⟩
      · exact .failed (acts.trans (by rw [raised]))
      · rw [written] at acts
        simp only [semantics, acts, Statement.issues, Statement.consumptions, List.append_nil]
        exact .addChannel fault accepted user token puts
    | issueToken userId channel ttlS =>
      simp only [Statement.exec] at acts
      cases issued : X.db.issueToken userId channel ttlS env with
      | error e => exact .failed (acts.trans (by rw [issued]))
      | ok db' =>
        obtain ⟨inTime, puts⟩ := issueToken_ok issued
        rw [issued] at acts
        simp only [semantics, acts, Statement.issues, Statement.consumptions, List.append_nil]
        exact .issueToken fault inTime puts
    | consumeToken channel recipientId token =>
      simp only [Statement.exec] at acts
      rcases consumeToken_cases X.db channel recipientId token env.now with
        ⟨e, raised, fades⟩ | ⟨row, u, waits, consumed, valid, puts⟩
      · exact .unrecorded (.inr ⟨e, by rw [acts, raised]⟩) (acts ▸ fades)
      · simp only [semantics, acts, consumed, Statement.issues, Statement.consumptions, waits,
          Option.toList_some, List.map_cons, List.map_nil, List.append_nil]
        exact .consumeToken waits valid puts
    | _ => exact .unrecorded (.inl rfl) (acts ▸ exec_fades rfl)

end Metnos.Users
