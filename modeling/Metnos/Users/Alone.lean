import Metnos.Users.Sound

/-!
# Users.Alone — a call that no other call interrupts

From a sound state, a call that runs on its own finds at every statement what it has read before it:
every run that is not sound interrupts a call (`uninterrupted_relied`).  Calls one after the other,
each with its process stopped at any statement, keep the identities sound (`serial_calls_sound`).
-/

namespace Metnos.Users

open Interleaving

/-- On its own, the program meets what its statements rely on; what it returns satisfies `Q`. -/
def Alone {α : Type} (p : Program α) (X : Shared) (Q : α → Shared → Prop) : Prop :=
  p.wp semantics relied X fun r Y => Placed Y ∧ ∀ a, r = .ok a → Q a Y

variable {α β : Type} {p : Program α} {X : Shared} {Q : α → Shared → Prop} {T : Text}

namespace Alone

theorem bind {f : α → Program β} {R : β → Shared → Prop}
    (h : Alone p X fun a Y => Alone (f a) Y R) : Alone (p >>= f) X R := by
  refine Program.wp_bind (Program.wp_mono h fun r Y hr => ?_)
  cases r with
  | ok a => exact hr.2 a rfl
  | error e => exact ⟨hr.1, fun _ ha => by cases ha⟩

theorem pure {a : α} (placed : Placed X) (h : Q a X) : Alone (Pure.pure a) X Q :=
  ⟨placed, fun _ ha => Except.ok.inj ha ▸ h⟩

theorem throw {e : UsersError} (placed : Placed X) :
    Alone (MonadExcept.throw e : Program α) X Q :=
  ⟨placed, fun _ ha => by cases ha⟩

theorem handle {f : UsersError → Program α} (h : Alone p X Q)
    (raises : ∀ e Y, Placed Y → Alone (f e) Y Q) : Alone (tryCatch p f) X Q := by
  refine Program.wp_handle (Program.wp_mono h fun r Y hr => ?_)
  cases r with
  | ok a => exact hr
  | error e => exact raises e Y hr.1

theorem statement {s : Statement} {Q : s.Reply → Shared → Prop} (placed : Placed X)
    (met : ∀ env, relied X env s)
    (post : ∀ env v, s.act env X.db = (.ok v, (s.act env X.db).2) →
      Placed (semantics.act env s X).2 → Q v (semantics.act env s X).2) :
    Alone (Users.statement s) X Q := by
  intro env _
  have after := placed.step (met env) (act_change env s X)
  exact ⟨met env, after, fun v hv => post env v (Prod.ext hv rfl) after⟩

theorem free {s : Statement} {Q : s.Reply → Shared → Prop} (placed : Placed X)
    (met : ∀ env db, s.relied env db)
    (post : ∀ v Y, Placed Y → (∃ env, s.exec env X.db = (.ok v, Y.db)) → Q v Y) :
    Alone (Users.statement s) X Q := by
  refine statement placed (fun env _ => met env X.db) fun env v returned after => ?_
  refine post v _ after ⟨env, ?_⟩
  cases fault : env.fault with
  | none => rw [← act_eq_exec fault, returned]; rfl
  | some what =>
    unfold Statement.act at returned
    rw [fault] at returned
    cases returned

theorem ofExcept {r : Except UsersError α} (placed : Placed X) (h : ∀ a, r = .ok a → Q a X) :
    Alone (Interleaving.Program.done r : Program α) X Q :=
  ⟨placed, h⟩

end Alone

/-! ## The functions -/

theorem openDb_alone {Q : Unit → Shared → Prop} (placed : Placed X)
    (post : ∀ Y, Placed Y → Y.db.users = X.db.users → Q () Y) : Alone openDb X Q := by
  refine Alone.bind (Alone.free placed (fun _ _ => trivial) ?_)
  rintro index Y placedY ⟨env, read⟩
  obtain ⟨-, same⟩ := Prod.ext_iff.mp read
  have users : Y.db.users = X.db.users := congrArg Db.users same.symm
  cases index with
  | true => exact Alone.pure placedY (post Y placedY users)
  | false =>
    refine Alone.free placedY (fun _ _ => trivial) ?_
    rintro _ Z placedZ ⟨env, written⟩
    obtain ⟨-, same⟩ := Prod.ext_iff.mp written
    exact post Z placedZ ((congrArg Db.users same.symm).trans users)

theorem initDb_alone {Q : Unit → Shared → Prop} (user : Option String) (placed : Placed X)
    (post : ∀ Y, Placed Y → Q () Y) : Alone (initDb T user) X Q := by
  refine Alone.bind (openDb_alone placed fun Y placedY _ => ?_)
  refine Alone.bind (Alone.free placedY (fun _ _ => trivial) ?_)
  rintro n Z placedZ ⟨env, read⟩
  obtain ⟨counted, same⟩ := Prod.ext_iff.mp read
  dsimp only [Statement.exec] at counted same
  by_cases empty : n > 0
  · rw [if_pos empty]
    exact Alone.pure placedZ (post Z placedZ)
  · rw [if_neg empty]
    refine Alone.bind (Alone.statement placedZ (fun env _ _ _ v hv => ?_) ?_)
    · rw [← same] at hv
      injection counted with counted
      exact absurd (counted ▸ List.length_pos_of_mem hv) empty
    · exact fun env v _ placedW => Alone.pure placedW (post _ placedW)

theorem getUser_alone {Q : Option User → Shared → Prop} (user : Option String) (key : String)
    (placed : Placed X) (post : ∀ u Y, Placed Y →
      (∀ v, u = some v → ∃ w ∈ Y.db.users.rows, w.id = v.id) → Q u Y) :
    Alone (getUser T user key) X Q := by
  unfold getUser
  split
  · exact Alone.pure placed (post none X placed fun _ h => by cases h)
  · refine Alone.bind (initDb_alone user placed fun Y placedY => ?_)
    refine Alone.bind (openDb_alone placedY fun Z placedZ _ => ?_)
    refine Alone.free placedZ (fun _ _ => trivial) ?_
    rintro u W placedW ⟨env, read⟩
    obtain ⟨found, same⟩ := Prod.ext_iff.mp read
    dsimp only [Statement.exec] at found same
    injection found with found
    refine post u W placedW fun v hv => ?_
    rw [hv] at found
    rw [← same]
    cases byId : (Z.db.users.find? key).filter (·.deletingAt = none) with
    | some w =>
      rw [byId] at found
      cases found
      exact ⟨v, Table.mem_of_find? (Option.filter_eq_some_iff.mp byId).1, rfl⟩
    | none =>
      rw [byId] at found
      exact ⟨v, List.mem_of_find?_eq_some found, rfl⟩

theorem checkHost_alone (role : Role) {Q : Unit → Shared → Prop} (placed : Placed X)
    (post : ∀ Y, Placed Y → (role = .host → ∀ v ∈ Y.db.users.rows, v.role ≠ .host) → Q () Y) :
    Alone (checkHost role) X Q := by
  unfold checkHost
  split
  · refine Alone.bind (Alone.free placed (fun _ _ => trivial) ?_)
    rintro existing Y placedY ⟨env, read⟩
    obtain ⟨found, same⟩ := Prod.ext_iff.mp read
    dsimp only [Statement.exec] at found same
    injection found with found
    cases existing with
    | true => exact Alone.throw placedY
    | false =>
      refine Alone.pure placedY (post Y placedY fun _ v hv => ?_)
      rw [← same] at hv
      simpa using List.any_eq_false.mp found v hv
  · rename_i guest
    exact Alone.pure placed (post X placed fun host => absurd host guest)

theorem checkOwner_alone (owner : Option String) {Q : Unit → Shared → Prop} (placed : Placed X)
    (post : ∀ Y, Placed Y → Y.db = X.db → Q () Y) : Alone (checkOwner owner) X Q := by
  unfold checkOwner
  split
  · refine Alone.bind (Alone.free placed (fun _ _ => trivial) ?_)
    rintro found Y placedY ⟨env, read⟩
    obtain ⟨-, same⟩ := Prod.ext_iff.mp read
    cases found with
    | true => exact Alone.pure placedY (post Y placedY same.symm)
    | false => exact Alone.throw placedY
  · exact Alone.pure placed (post X placed rfl)

theorem createUser_alone (user : Option String) (name : String) (displayName : Option String)
    (role : String) (owner : Option String) (level : String) (notes email : Option String)
    (placed : Placed X) : Alone (createUser T user name displayName role owner level notes email) X
      fun _ _ => True := by
  unfold createUser
  split
  · rename_i r _
    split
    · refine Alone.bind (Alone.ofExcept placed fun normName _ => ?_)
      refine Alone.bind (initDb_alone user placed fun Y placedY => ?_)
      refine Alone.bind (openDb_alone placedY fun Z placedZ _ => ?_)
      refine Alone.bind (checkHost_alone r placedZ fun U placedU hosts => ?_)
      refine Alone.bind (checkOwner_alone owner placedU fun V placedV same => ?_)
      refine Alone.bind (Alone.handle (Alone.statement placedV (fun env _ host _ => ?_) ?_) ?_)
      · exact same ▸ hosts host
      · exact fun env v _ placedW => Alone.free placedW (fun _ _ => trivial) fun _ _ _ _ => trivial
      · exact fun e W placedW => Alone.throw placedW
    · exact Alone.throw placed
  · exact Alone.throw placed

theorem deleteUser_alone (user : Option String) (userId : String) (placed : Placed X) :
    Alone (deleteUser T user userId) X fun _ _ => True := by
  unfold deleteUser
  split
  · exact Alone.pure placed trivial
  · refine Alone.bind (initDb_alone user placed fun Y placedY => ?_)
    refine Alone.bind (openDb_alone placedY fun Z placedZ _ => ?_)
    refine Alone.bind (Alone.free placedZ (fun _ _ => trivial) fun found U placedU _ => ?_)
    cases found with
    | none => exact Alone.pure placedU trivial
    | some channels =>
      refine Alone.handle ?_ fun e V placedV => ?_
      · refine Alone.bind (Alone.free placedU (fun _ _ => trivial) fun _ V placedV _ => ?_)
        refine Alone.bind (openDb_alone placedV fun W placedW _ => ?_)
        exact Alone.free placedW (fun _ _ => trivial) fun _ _ _ _ => trivial
      · refine Alone.bind (openDb_alone placedV fun W placedW _ => ?_)
        exact Alone.bind (Alone.free placedW (fun _ _ => trivial) fun _ _ placed' _ =>
          Alone.throw placed')

theorem addChannel_alone (user : Option String) (userId channel recipientId : String)
    (verified : Bool) (placed : Placed X) :
    Alone (addChannel T user userId channel recipientId verified) X fun _ _ => True := by
  unfold addChannel
  split
  · split
    · exact Alone.throw placed
    · refine Alone.bind (getUser_alone user userId placed fun u Y placedY found => ?_)
      cases u with
      | none => exact Alone.throw placedY
      | some u =>
        refine Alone.bind (openDb_alone placedY fun Z placedZ same => ?_)
        refine Alone.statement placedZ (fun env _ _ => ?_) fun _ _ _ _ => trivial
        exact same ▸ found u rfl
  · exact Alone.throw placed

theorem issuePairingToken_alone (user : Option String) (userId channel : String) (ttlS : ℤ)
    (placed : Placed X) : Alone (issuePairingToken T user userId channel ttlS) X
      fun _ _ => True := by
  unfold issuePairingToken
  split
  · refine Alone.bind (getUser_alone user userId placed fun u Y placedY found => ?_)
    cases u with
    | none => exact Alone.throw placedY
    | some u =>
      refine Alone.bind (openDb_alone placedY fun Z placedZ same => ?_)
      refine Alone.statement placedZ (fun env _ _ => ?_) fun _ _ _ _ => trivial
      exact same ▸ found u rfl
  · exact Alone.throw placed

theorem removeChannel_alone (userId channel : String) (placed : Placed X) :
    Alone (removeChannel userId channel) X fun _ _ => True := by
  refine Alone.bind (openDb_alone placed fun Y placedY _ => ?_)
  split
  · exact Alone.free placedY (fun _ _ => trivial) fun _ _ _ _ => trivial
  · exact Alone.pure placedY trivial

theorem consumePairingToken_alone (channel recipientId token : String) (placed : Placed X) :
    Alone (consumePairingToken channel recipientId token) X fun _ _ => True := by
  unfold consumePairingToken
  split
  · split
    · exact Alone.throw placed
    · refine Alone.bind (openDb_alone placed fun Y placedY _ => ?_)
      exact Alone.free placedY (fun _ _ => trivial) fun _ _ _ _ => trivial
  · exact Alone.throw placed

theorem findUserByRecipient_alone (user : Option String) (channel : Channel) (recipientId : String)
    {Q : Option User → Shared → Prop} (placed : Placed X) (post : ∀ u Y, Placed Y → Q u Y) :
    Alone (findUserByRecipient T user channel recipientId) X Q := by
  unfold findUserByRecipient
  split
  · exact Alone.pure placed (post none X placed)
  · refine Alone.bind (initDb_alone user placed fun Y placedY => ?_)
    refine Alone.bind (openDb_alone placedY fun Z placedZ _ => ?_)
    refine Alone.bind (Alone.free placedZ (fun _ _ => trivial) fun found U placedU _ => ?_)
    split
    · exact Alone.pure placedU (post _ U placedU)
    · exact Alone.pure placedU (post _ U placedU)

theorem listUsers_alone (user : Option String) (role : Role) {Q : List User → Shared → Prop}
    (placed : Placed X) (post : ∀ l Y, Placed Y → Q l Y) :
    Alone (listUsers T user role) X Q := by
  refine Alone.bind (initDb_alone user placed fun Y placedY => ?_)
  refine Alone.bind (openDb_alone placedY fun Z placedZ _ => ?_)
  exact Alone.free placedZ (fun _ _ => trivial) fun l U placedU _ => post l U placedU

theorem autobindHostTelegram_alone (user : Option String) (chatId : String) (placed : Placed X) :
    Alone (autobindHostTelegram T user chatId) X fun _ _ => True := by
  unfold autobindHostTelegram
  split
  · exact Alone.pure placed trivial
  · refine Alone.bind (initDb_alone user placed fun Y placedY => ?_)
    refine Alone.bind (findUserByRecipient_alone user _ _ placedY fun found Z placedZ => ?_)
    cases found with
    | some existing =>
      refine Alone.bind (openDb_alone placedZ fun U placedU _ => ?_)
      exact Alone.free placedU (fun _ _ => trivial) fun _ _ _ _ => trivial
    | none =>
      refine Alone.bind (listUsers_alone user .host placedZ fun hosts U placedU => ?_)
      cases hosts with
      | nil => exact Alone.pure placedU trivial
      | cons host rest =>
        refine Alone.bind (Program.wp_mono (addChannel_alone user host.id "telegram" chatId true
          placedU) fun r V hr => ⟨hr.1, fun bound _ => ?_⟩)
        exact Alone.pure hr.1 trivial

theorem body_alone (c : Call) (placed : Placed X) : Alone (body T c) X fun _ _ => True := by
  have discards : ∀ {α : Type} {p : Program α}, Alone p X (fun _ _ => True) →
      Alone (discard p) X fun _ _ => True := fun h =>
    Alone.bind (Program.wp_mono h fun r Y hr => ⟨hr.1, fun _ _ => Alone.pure hr.1 trivial⟩)
  obtain ⟨user, op⟩ := c
  cases op with
  | createUser name displayName role owner level notes email =>
    exact discards (createUser_alone user name displayName role owner level notes email placed)
  | deleteUser userId => exact discards (deleteUser_alone user userId placed)
  | addChannel userId channel recipientId verified =>
    exact discards (addChannel_alone user userId channel recipientId verified placed)
  | removeChannel userId channel => exact discards (removeChannel_alone userId channel placed)
  | issuePairingToken userId channel ttlS =>
    exact discards (issuePairingToken_alone user userId channel ttlS placed)
  | consumePairingToken channel recipientId token =>
    exact discards (consumePairingToken_alone channel recipientId token placed)
  | autobindHostTelegram chatId => exact discards (autobindHostTelegram_alone user chatId placed)

theorem uninterrupted_relied (X : Identities) (placed : Placed X.shared) (c : Call)
    (envs : List Env) : Transaction.Meets (System.step semantics (body T))
      (Guarded semantics relied) X (.start c :: envs.map (.step X.programs.length)) := by
  let Y : Identities := ⟨X.shared, X.programs ++ [body T c]⟩
  have started : Y.programs[X.programs.length]? = some (body T c) := List.getElem?_concat_length
  exact ⟨trivial, Program.wp_meets started (body_alone c placed) envs⟩

/-! ## One call after the other -/

/-- Calls that wait for each other.  Each comes with the surroundings of the statements that its
process still executes, all of them or only the first ones. -/
def serial (place : ℕ) : List (Call × List Env) → List (Event Call Env)
  | [] => []
  | (c, envs) :: calls => (.start c :: envs.map (.step place)) ++ serial (place + 1) calls

theorem inv_act {env : Env} {s : Statement} (admitted : semantics.admits X env = true)
    (met : relied X env s) (inv : Tracked X ∧ Placed X) :
    Tracked (semantics.act env s X).2 ∧ Placed (semantics.act env s X).2 := by
  have changed := act_change env s X
  exact ⟨inv.1.step (not_drawn admitted) changed, inv.2.step met changed⟩

theorem serial_meets (Y : Identities) (inv : Tracked Y.shared ∧ Placed Y.shared)
    (calls : List (Call × List Env)) : Transaction.Meets (System.step semantics (body T))
      (Guarded semantics relied) Y (serial Y.programs.length calls) := by
  induction calls generalizing Y with
  | nil => trivial
  | cons call calls ih =>
    obtain ⟨c, envs⟩ := call
    have met := uninterrupted_relied (T := T) Y inv.2 c envs
    have kept := run_shared (fun _ _ _ admitted met => inv_act admitted met) met inv
    rw [serial, Transaction.meets_append]
    refine ⟨met, ?_⟩
    -- the next call takes the next place
    have place := length_run_start semantics (body T) Y c Y.programs.length envs
    have rest := ih _ kept
    rw [place] at rest
    exact rest

/-- Whatever order the calls come in, and wherever each of them is stopped, the identities are sound
after every statement as long as no call starts before the one before it is over. -/
theorem serial_calls_sound (T : Text) (calls : List (Call × List Env)) (n : ℕ) :
    Sound (run T ((serial 0 calls).take n)).shared := by
  have met := serial_meets (T := T) start ⟨tracked_empty, placed_empty⟩ calls
  rw [show start.programs.length = 0 from rfl, ← List.take_append_drop n (serial 0 calls),
    Transaction.meets_append] at met
  have inv := run_shared (fun _ _ _ admitted met => inv_act admitted met) met.1
    ⟨tracked_empty, placed_empty⟩
  exact sound_of inv.1 inv.2

end Metnos.Users
