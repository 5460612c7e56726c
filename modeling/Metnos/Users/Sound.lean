import Metnos.Users.Interleaved

/-!
# Users.Sound — which interleavings keep the identities sound

A verified recipient has one owner, and a token is consumed once, before it expires, for the user it
was issued to, in every interleaving (`tracked_run`).  One host and no channel without its user need
more: the runs that keep them are those in which what a statement relies on is still so when it runs
(`identities_sound_iff`), as it is for a call that no other one interrupts (`uninterrupted_relied`).
-/

namespace Metnos.Users

open Interleaving

/-! ## What every interleaving keeps -/

/-- A recipient is verified once; what is random is new; and a token that waits in a row was issued
for it and not consumed. -/
structure Tracked (X : Shared) : Prop where
  oneVerified : ∀ b ∈ X.db.channels.rows, ∀ d ∈ X.db.channels.rows, b.verifiedAt.isSome →
    d.verifiedAt.isSome → b.channel = d.channel → b.recipientId = d.recipientId →
    b.recipientId ≠ "" → b = d
  once : (X.consumptions.map (·.token)).Nodup
  issued : ∀ c ∈ X.consumptions, ∃ i ∈ X.issues,
    i.token = c.token ∧ i.userId = c.userId ∧ i.channel = c.channel ∧ c.now ≤ i.expires
  ids : ∀ u ∈ X.db.users.rows, u.id ∈ X.drawn
  tokens : ∀ i ∈ X.issues, i.token ∈ X.drawn
  distinct : (X.issues.map (·.token)).Nodup
  pending : ∀ b ∈ X.db.channels.rows, ∀ t, b.pairingToken = some t →
    t ∉ X.consumptions.map (·.token) ∧
      ∃ e, b.pairingExpiresAt = some e ∧ ⟨t, b.userId, b.channel, e⟩ ∈ X.issues

variable {X X' : Shared} {db' : Db} {env : Env} {s : Statement} {random : String}

theorem Tracked.fades (tracked : Tracked X) (h : Fades X.db db') :
    Tracked ⟨db', X.issues, X.consumptions, random :: X.drawn⟩ where
  oneVerified b' hb' d' hd' verifiedB verifiedD channel recipient nonempty := by
    obtain ⟨b, hb, fadesB⟩ := h.channels b' hb'
    obtain ⟨d, hd, fadesD⟩ := h.channels d' hd'
    have same : b = d := by
      refine tracked.oneVerified b hb d hd (fadesB.verified verifiedB) (fadesD.verified verifiedD)
        ?_ ?_ (fadesB.recipientId ▸ nonempty)
      · have keyB : b'.channel = b.channel := congrArg Prod.snd fadesB.key
        have keyD : d'.channel = d.channel := congrArg Prod.snd fadesD.key
        rw [← keyB, ← keyD, channel]
      · rw [← fadesB.recipientId, ← fadesD.recipientId, recipient]
    exact List.inj_on_of_nodup_map db'.channels.nodup hb' hd'
      (by rw [fadesB.key, fadesD.key, same])
  once := tracked.once
  issued := tracked.issued
  ids u' hu' := by
    obtain ⟨u, hu, id, -⟩ := h.users u' hu'
    exact List.mem_cons_of_mem _ (id ▸ tracked.ids u hu)
  tokens i hi := List.mem_cons_of_mem _ (tracked.tokens i hi)
  distinct := tracked.distinct
  pending b' hb' t ht := by
    obtain ⟨b, hb, fades⟩ := h.channels b' hb'
    have user : b'.userId = b.userId := congrArg Prod.fst fades.key
    have channel : b'.channel = b.channel := congrArg Prod.snd fades.key
    rcases fades.token with none | ⟨token, expires⟩
    · rw [none] at ht
      cases ht
    · rw [user, channel, expires]
      exact tracked.pending b hb t (token ▸ ht)

theorem Tracked.insertUser (tracked : Tracked X) {row : User}
    (rows : db'.users.rows = X.db.users.rows ++ [row]) (channels : db'.channels = X.db.channels) :
    Tracked ⟨db', X.issues, X.consumptions, row.id :: X.drawn⟩ where
  oneVerified := channels ▸ tracked.oneVerified
  once := tracked.once
  issued := tracked.issued
  ids u hu := by
    rw [rows, List.mem_append, List.mem_singleton] at hu
    rcases hu with hu | rfl
    · exact List.mem_cons_of_mem _ (tracked.ids u hu)
    · exact List.mem_cons_self ..
  tokens i hi := List.mem_cons_of_mem _ (tracked.tokens i hi)
  distinct := tracked.distinct
  pending := channels ▸ tracked.pending

theorem Puts.oneVerified {row : Binding} (h : Puts X.db row db') (tracked : Tracked X) :
    ∀ b ∈ db'.channels.rows, ∀ d ∈ db'.channels.rows, b.verifiedAt.isSome → d.verifiedAt.isSome →
      b.channel = d.channel → b.recipientId = d.recipientId → b.recipientId ≠ "" → b = d := by
  intro b hb d hd verifiedB verifiedD channel recipient nonempty
  have other : ∀ x ∈ X.db.channels.rows, x.key ≠ row.key → x.verifiedAt.isSome →
      row.verifiedAt.isSome → x.channel = row.channel → x.recipientId = row.recipientId →
      False := by
    intro x hx key verified verifies channel recipient
    have none := h.unique verifies
    unfold Db.conflict at none
    have := List.any_eq_false.mp none x hx
    have user : x.userId ≠ row.userId := fun same => key (Prod.ext same channel)
    simp [channel, recipient, verified, user] at this
  rcases h.channels b hb with rfl | ⟨oldB, keyB⟩ <;>
    rcases h.channels d hd with rfl | ⟨oldD, keyD⟩
  · rfl
  · exact (other d oldD keyD verifiedD verifiedB channel.symm recipient.symm).elim
  · exact (other b oldB keyB verifiedB verifiedD channel recipient).elim
  · exact tracked.oneVerified b oldB d oldD verifiedB verifiedD channel recipient nonempty

theorem Tracked.addChannel (tracked : Tracked X) {row : Binding} (h : Puts X.db row db')
    (token : row.pairingToken = none) :
    Tracked ⟨db', X.issues, X.consumptions, random :: X.drawn⟩ where
  oneVerified := h.oneVerified tracked
  once := tracked.once
  issued := tracked.issued
  ids u hu := List.mem_cons_of_mem _ (tracked.ids u (h.users ▸ hu))
  tokens i hi := List.mem_cons_of_mem _ (tracked.tokens i hi)
  distinct := tracked.distinct
  pending b hb t ht := by
    rcases h.channels b hb with rfl | ⟨old, -⟩
    · rw [token] at ht
      cases ht
    · exact tracked.pending b old t ht

theorem Tracked.fresh (tracked : Tracked X) (new : random ∉ X.drawn) :
    random ∉ X.issues.map (·.token) ∧ random ∉ X.consumptions.map (·.token) := by
  have unissued : ∀ i ∈ X.issues, i.token ≠ random := fun i hi same =>
    new (same ▸ tracked.tokens i hi)
  refine ⟨fun h => ?_, fun h => ?_⟩
  · obtain ⟨i, hi, same⟩ := List.mem_map.mp h
    exact unissued i hi same
  · obtain ⟨c, hc, same⟩ := List.mem_map.mp h
    obtain ⟨i, hi, token, -⟩ := tracked.issued c hc
    exact unissued i hi (token.trans same)

theorem nodup_tokens_append {α : Type} {token : α → String} {l : List α} {a : α}
    (nodup : (l.map token).Nodup) (new : token a ∉ l.map token) :
    ((l ++ [a]).map token).Nodup := by
  rw [List.map_append]
  refine nodup.append (List.nodup_singleton _) fun t ht hnew => ?_
  obtain rfl : t = token a := by simpa using hnew
  exact new ht

theorem Tracked.issueToken (tracked : Tracked X) (new : random ∉ X.drawn) {userId : String}
    {channel : Channel} {expires : ℤ}
    (h : Puts X.db ⟨userId, channel, "", none, some random, some expires⟩ db') :
    Tracked ⟨db', X.issues ++ [⟨random, userId, channel, expires⟩], X.consumptions,
      random :: X.drawn⟩ where
  oneVerified := h.oneVerified tracked
  once := tracked.once
  issued c hc := by
    obtain ⟨i, hi, rest⟩ := tracked.issued c hc
    exact ⟨i, List.mem_append_left _ hi, rest⟩
  ids u hu := List.mem_cons_of_mem _ (tracked.ids u (h.users ▸ hu))
  tokens i hi := by
    rw [List.mem_append, List.mem_singleton] at hi
    rcases hi with hi | rfl
    · exact List.mem_cons_of_mem _ (tracked.tokens i hi)
    · exact List.mem_cons_self ..
  distinct := nodup_tokens_append tracked.distinct (tracked.fresh new).1
  pending b hb t ht := by
    rcases h.channels b hb with rfl | ⟨old, -⟩
    · cases ht
      exact ⟨(tracked.fresh new).2, expires, rfl, by simp⟩
    · obtain ⟨unconsumed, e, he, hi⟩ := tracked.pending b old t ht
      exact ⟨unconsumed, e, he, List.mem_append_left _ hi⟩

theorem pending_spec {db : Db} {channel : Channel} {token : String} {row : Binding}
    (waits : db.pending channel token = some row) :
    row ∈ db.channels.rows ∧ row.channel = channel ∧ row.pairingToken = some token :=
  ⟨List.mem_of_find?_eq_some waits, by simpa using List.find?_some waits⟩

theorem Tracked.consumeToken (tracked : Tracked X) {channel : Channel}
    {recipientId token : String} {now : ℚ} {row : Binding} {present : Bool}
    (waits : X.db.pending channel token = some row)
    (valid : ∀ e, row.pairingExpiresAt = some e → now ≤ e)
    (h : Puts X.db (row.paired recipientId now) db') :
    Tracked ⟨db', X.issues, X.consumptions ++
      [⟨token, row.userId, channel, recipientId, now, present⟩], random :: X.drawn⟩ := by
  obtain ⟨member, rfl, hasToken⟩ := pending_spec waits
  obtain ⟨unconsumed, expires, he, hissue⟩ := tracked.pending row member token hasToken
  refine ⟨h.oneVerified tracked, nodup_tokens_append tracked.once unconsumed, fun c hc => ?_,
    fun u hu => List.mem_cons_of_mem _ (tracked.ids u (h.users ▸ hu)),
    fun i hi => List.mem_cons_of_mem _ (tracked.tokens i hi), tracked.distinct,
    fun b hb t ht => ?_⟩
  · rw [List.mem_append, List.mem_singleton] at hc
    rcases hc with hc | rfl
    · exact tracked.issued c hc
    · exact ⟨_, hissue, rfl, rfl, rfl, valid expires he⟩
  · rcases h.channels b hb with rfl | ⟨old, key⟩
    · cases ht
    · obtain ⟨notConsumed, e, heb, hi⟩ := tracked.pending b old t ht
      refine ⟨?_, e, heb, hi⟩
      rw [List.map_append, List.map_singleton, List.mem_append, List.mem_singleton]
      rintro (consumed | rfl)
      · exact notConsumed consumed
      · -- two rows with one token are one row
        have same := List.inj_on_of_nodup_map tracked.distinct hi hissue rfl
        injection same with _ user channel
        exact key (Prod.ext user channel)

theorem Tracked.step (tracked : Tracked X) (new : env.random ∉ X.drawn)
    (h : Change env X s X') : Tracked X' := by
  cases h with
  | fade fades => exact tracked.fades fades
  | insertUser _ rows channels => exact tracked.insertUser rows channels
  | addChannel _ _ _ token puts => exact tracked.addChannel puts token
  | issueToken _ _ puts => exact tracked.issueToken new puts
  | consumeToken waits valid puts => exact tracked.consumeToken waits valid puts

theorem tracked_empty : Tracked Shared.empty where
  oneVerified _ hb := by cases hb
  once := List.nodup_nil
  issued _ hc := by cases hc
  ids _ hu := by cases hu
  tokens _ hi := by cases hi
  distinct := List.nodup_nil
  pending _ hb := by cases hb

theorem not_drawn (admitted : semantics.admits X env = true) : env.random ∉ X.drawn :=
  of_decide_eq_true admitted

/-! ## What interleavings may break -/

structure Placed (X : Shared) : Prop where
  oneHost : ∀ u ∈ X.db.users.rows, ∀ v ∈ X.db.users.rows, u.role = .host → v.role = .host → u = v
  owned : ∀ b ∈ X.db.channels.rows, ∃ u ∈ X.db.users.rows, u.id = b.userId
  present : ∀ c ∈ X.consumptions, c.present = true

theorem placed_empty : Placed Shared.empty where
  oneHost _ hu := by cases hu
  owned _ hb := by cases hb
  present _ hc := by cases hc

theorem Placed.puts (placed : Placed X) {row : Binding} (h : Puts X.db row db')
    (owner : ∃ u ∈ X.db.users.rows, u.id = row.userId) {issues : List Issue}
    {consumptions : List Consumption} {drawn : List String}
    (present : ∀ c ∈ consumptions, c.present = true) :
    Placed ⟨db', issues, consumptions, drawn⟩ where
  oneHost := h.users ▸ placed.oneHost
  owned b hb := by
    rw [h.users]
    rcases h.channels b hb with rfl | ⟨old, -⟩
    · exact owner
    · exact placed.owned b old
  present := present

theorem Placed.fades (placed : Placed X) (h : Fades X.db db') {drawn : List String} :
    Placed ⟨db', X.issues, X.consumptions, drawn⟩ where
  oneHost u' hu' v' hv' hostU hostV := by
    obtain ⟨u, hu, idU, roleU⟩ := h.users u' hu'
    obtain ⟨v, hv, idV, roleV⟩ := h.users v' hv'
    have same : u = v := placed.oneHost u hu v hv (roleU ▸ hostU) (roleV ▸ hostV)
    exact List.inj_on_of_nodup_map db'.users.nodup hu' hv' (by rw [idU, idV, same])
  owned b' hb' := by
    obtain ⟨b, hb, fades⟩ := h.channels b' hb'
    obtain ⟨u, hu, owner⟩ := placed.owned b hb
    have user : b'.userId = b.userId := congrArg Prod.fst fades.key
    obtain ⟨u', hu', id⟩ := h.owners b' hb' u hu (owner.trans user.symm)
    exact ⟨u', hu', id.trans (owner.trans user.symm)⟩
  present := placed.present

theorem Placed.insertUser (placed : Placed X) {row : User} {drawn : List String}
    (rows : db'.users.rows = X.db.users.rows ++ [row]) (channels : db'.channels = X.db.channels)
    (alone : row.role = .host → ∀ v ∈ X.db.users.rows, v.role ≠ .host) :
    Placed ⟨db', X.issues, X.consumptions, drawn⟩ where
  oneHost u hu v hv hostU hostV := by
    rw [rows, List.mem_append, List.mem_singleton] at hu hv
    rcases hu with hu | rfl <;> rcases hv with hv | rfl
    · exact placed.oneHost u hu v hv hostU hostV
    · exact absurd hostU (alone hostV u hu)
    · exact absurd hostV (alone hostU v hv)
    · rfl
  owned b hb := by
    obtain ⟨u, hu, owner⟩ := placed.owned b (channels ▸ hb)
    exact ⟨u, rows ▸ List.mem_append_left _ hu, owner⟩
  present := placed.present

theorem Placed.step (placed : Placed X) (met : relied X env s) (h : Change env X s X') :
    Placed X' := by
  cases h with
  | fade fades => exact placed.fades fades
  | insertUser fault rows channels names =>
    exact placed.insertUser rows channels fun host => met fault host names
  | addChannel fault accepted user token puts =>
    refine placed.puts puts ?_ placed.present
    rw [user]
    exact met fault (Bool.eq_false_iff.mp accepted)
  | issueToken fault inTime puts => exact placed.puts puts (met fault inTime) placed.present
  | consumeToken waits valid puts =>
    obtain ⟨u, hu, owner⟩ := placed.owned _ (pending_spec waits).1
    refine placed.puts puts ⟨u, hu, owner⟩ fun c hc => ?_
    rw [List.mem_append, List.mem_singleton] at hc
    rcases hc with hc | rfl
    · exact placed.present c hc
    · show (X.db.users.find? _).isSome = true
      rw [← owner, Table.find?_of_mem hu]
      rfl

theorem not_sound_of_orphan {row : Binding} (after : (s.act env X.db).2 = db')
    (users : db'.users = X.db.users) (written : row ∈ db'.channels.rows)
    (gone : ∀ u ∈ X.db.users.rows, u.id ≠ row.userId) : ¬ Sound (semantics.act env s X).2 := by
  intro sound
  obtain ⟨u, hu, owner⟩ := sound.owned row (by
    show row ∈ (s.act env X.db).2.channels.rows
    rw [after]
    exact written)
  refine gone u ?_ owner
  rw [← users, ← after]
  exact hu

theorem Tracked.broken (tracked : Tracked X) (new : env.random ∉ X.drawn)
    (broken : ¬ relied X env s) : ¬ Sound (semantics.act env s X).2 := by
  unfold relied at broken
  push Not at broken
  obtain ⟨fault, broken⟩ := broken
  have acts := @act_eq_exec X.db env s fault
  cases s with
  | insertUser u =>
    simp only [Statement.relied] at broken
    push Not at broken
    obtain ⟨host, names, v, hv, other⟩ := broken
    have ids : ∀ v ∈ X.db.users.rows, v.id ≠ (Db.newRow u env).id := fun v hv same =>
      new ((show v.id = env.random from same) ▸ tracked.ids v hv)
    obtain ⟨db', inserted⟩ := insertUser_free (Db.newRow u env) names ids
    obtain ⟨rows, -⟩ := insertUser_some inserted
    have after : (semantics.act env (.insertUser u) X).2.db.users.rows =
        X.db.users.rows ++ [Db.newRow u env] := by
      show ((Statement.insertUser u).act env X.db).2.users.rows = _
      rw [acts]
      simp only [Statement.exec, inserted]
      exact rows
    intro sound
    have same : v = Db.newRow u env := by
      refine sound.oneHost v ?_ _ ?_ other host
      · exact after ▸ List.mem_append_left _ hv
      · exact after ▸ List.mem_append_right _ (List.mem_singleton_self _)
    exact ids v hv (congrArg User.id same)
  | addChannel userId channel recipientId verified =>
    simp only [Statement.relied] at broken
    push Not at broken
    obtain ⟨accepted, gone⟩ := broken
    rcases addChannel_cases X.db userId channel recipientId verified env.now with
      ⟨conflict, -⟩ | ⟨row, db', written, -, rfl, -, member, puts⟩
    · exact absurd conflict (by simpa using accepted)
    · refine not_sound_of_orphan ?_ puts.users member (by simpa using gone)
      rw [acts]
      simp only [Statement.exec, written]
  | issueToken userId channel ttlS =>
    simp only [Statement.relied] at broken
    push Not at broken
    obtain ⟨inTime, gone⟩ := broken
    obtain ⟨row, db', issued, rfl, users, member⟩ :=
      issueToken_inTime X.db userId channel inTime
    refine not_sound_of_orphan ?_ users member (by simpa using gone)
    rw [acts]
    simp only [Statement.exec, issued]
  | _ => exact absurd trivial broken

/-! ## Runs -/

theorem sound_of (tracked : Tracked X) (placed : Placed X) : Sound X where
  oneHost := placed.oneHost
  owned := placed.owned
  oneVerified := tracked.oneVerified
  once := tracked.once
  issued c hc := ⟨placed.present c hc, tracked.issued c hc⟩

/-- **Soundness of the identities.**  A run stays sound exactly if every statement of it still finds
what its function has read: no host is there when one is inserted, and the user of a channel that is
written is there. -/
theorem identities_sound_iff (T : Text) (events : List (Event Call Env)) :
    (∀ n, Sound (run T (events.take n)).shared) ↔
      Transaction.Meets (System.step semantics (body T)) (Guarded semantics relied) start events := by
  refine guarded_iff (I := fun X => Tracked X ∧ Placed X) ?_ (fun _ inv => sound_of inv.1 inv.2) ?_
    ⟨tracked_empty, placed_empty⟩
  · rintro X env s admitted met ⟨tracked, placed⟩
    have changed := act_change env s X
    exact ⟨tracked.step (not_drawn admitted) changed, placed.step met changed⟩
  · rintro X env s admitted broken ⟨tracked, -⟩
    exact tracked.broken (not_drawn admitted) broken

/-- A text of letters and digits in lower case is its own normal form. -/
def lowerCase : Text :=
  ⟨id, id, fun s => if s = "host" then "Host" else s, Char.isAlphanum⟩

/-- The host is deleted while `add_channel` is about to write a channel of it. -/
def deletedMeanwhile : List (Event Call Env) :=
  [.start ⟨none, .addChannel "host" "telegram" "42" true⟩, .start ⟨none, .deleteUser "d"⟩] ++
    ["a", "b", "c", "d", "e", "f", "g"].map (fun random => .step 0 ⟨0, random, none⟩) ++
    ["h", "i", "j", "k", "l", "m", "n"].map (fun random => .step 1 ⟨0, random, none⟩) ++
    [.step 0 ⟨0, "o", none⟩]

theorem deleted_user_is_bound :
    ¬ ∀ events, Sound (run lowerCase events).shared := by
  intro sound
  have users : (run lowerCase deletedMeanwhile).shared.db.users.rows = [] := by decide +kernel
  have channels : (run lowerCase deletedMeanwhile).shared.db.channels.rows =
      [⟨"d", .telegram, "42", some 0, none, none⟩] := by decide +kernel
  have member : (⟨"d", .telegram, "42", some 0, none, none⟩ : Binding) ∈
      (run lowerCase deletedMeanwhile).shared.db.channels.rows := by
    rw [channels]
    exact List.mem_singleton_self _
  obtain ⟨u, hu, -⟩ := (sound deletedMeanwhile).owned _ member
  rw [users] at hu
  cases hu

end Metnos.Users
