import Mathlib.Logic.Function.Basic
import Metnos.Invocations.Lifecycle

/-!
# Invocations.Cursor — what the cursor of a polling client hides

`Runner::run` sends as cursor the id of the last invocation it received, and the server offers only
larger ids.  The work of a device stays visible as long as ids are inserted above its cursor and
responses are received in the order of ids.
-/

namespace Metnos.Invocations

/-- The server and, for each device, its running client: the cursor and the ids it received.
`answered` are the polls whose response arrived. -/
structure Session where
  sys : System
  cursor : String → Option String
  received : String → List String
  answered : List ℕ

def Session.init : Session := ⟨.init, fun _ => none, fun _ => [], []⟩

/-- A response that is lost is one that is never received. -/
inductive SessionEvent
  | server (e : Event)
  | poll (deviceId : String)
  | receive (i : ℕ)

def Event.isPoll : Event → Bool
  | .poll _ _ => true
  | _ => false

/-- The response of poll `i`: the device and the id it was given. -/
def Session.response (S : Session) (i : ℕ) : Option (String × String) :=
  match S.sys.polls[i]? with
  | some p => if p.claimed && !S.answered.contains i then p.found.map fun id => (p.deviceId, id) else none
  | none => none

variable (G : Signing)

def Session.step (S : Session) : SessionEvent → Except InvocationError Session
  | .server e =>
    if e.isPoll then .ok S
    else do
      let sys ← S.sys.step G e
      return { S with sys := sys }
  | .poll deviceId => do
    let sys ← S.sys.step G (.poll deviceId (S.cursor deviceId))
    return { S with sys := sys }
  | .receive i =>
    match S.response i with
    | some (deviceId, id) => .ok { S with
        cursor := Function.update S.cursor deviceId (some id)
        received := Function.update S.received deviceId (id :: S.received deviceId)
        answered := i :: S.answered }
    | none => .ok S

abbrev Session.run (events : List SessionEvent) : Session :=
  Transaction.run (Session.step G) .init events

/-- Work the device has not got: queued, or delivered into a response that never arrived. -/
def Session.Pending (S : Session) (row : Row) : Prop :=
  row.state = .queued ∨
    (row.state = .delivered ∧ row.invocationId ∉ S.received row.deviceId)

/-- All pending work of every device is above the cursor its client sends. -/
def Session.Visible (S : Session) : Prop :=
  ∀ id row, S.sys.db.find? id = some row → S.Pending row →
    (S.cursor row.deviceId).getD "" < row.invocationId

/-- An id is inserted above the cursor of its device, and a response is received when the other
pending work of the device has larger ids. -/
def Session.Ordered (S : Session) : SessionEvent → Prop
  | .server (.enqueue c) => ∀ new, preparedRow G c S.sys.clock = .ok new →
    existingRows S.sys.db new.invocationId new.deviceId new.dispatchKey = [] →
    (S.cursor new.deviceId).getD "" < new.invocationId
  | .receive i => ∀ deviceId id, S.response i = some (deviceId, id) →
    ∀ k row, S.sys.db.find? k = some row → row.deviceId = deviceId → S.Pending row →
      row.state = .queued ∨ row.invocationId ≠ id → id < row.invocationId
  | _ => True

variable {G} {S S' : Session} {e : Event}

theorem Change.pending {T : System} {row row' : Row} (h : Change T e row row')
    (pending : S.Pending row') : S.Pending row := by
  cases h with
  | keep => exact pending
  | abandon => exact pending
  | deliver poll state => exact .inl state
  | redeliver poll state =>
    rcases pending with hq | hd
    · cases hq
    · exact .inr ⟨state, hd.2⟩
  | expire =>
    rcases pending with hq | hd
    · cases hq
    · cases hd.1
  | complete =>
    simp only [Session.Pending, Row.complete] at pending
    split at pending <;> simp at pending

theorem visible_old {sys : System} (visible : S.Visible) (rows : RowSteps S.sys e sys.db)
    {id : String} {row' : Row} (hrow' : sys.db.find? id = some row') (pending : S.Pending row')
    (old : S.sys.db.find? id ≠ none) : (S.cursor row'.deviceId).getD "" < row'.invocationId := by
  obtain ⟨row, hrow⟩ := Option.ne_none_iff_exists'.mp old
  rcases rows.old id row hrow with ⟨x, hx, change⟩ | ⟨hnone, -⟩
  · obtain rfl : x = row' := Option.some.inj (hx.symm.trans hrow')
    rw [change.same_key.1, change.same_id]
    exact visible id row hrow (change.pending pending)
  · rw [hnone] at hrow'
    cases hrow'

theorem Session.Visible.server {sys : System} (visible : S.Visible) (sound : Sound S.sys.db)
    (ordered : S.Ordered G (.server e)) (h : S.sys.step G e = .ok sys) :
    ({ S with sys := sys } : Session).Visible := by
  have rows := step_rows sound h
  intro id row' hrow' pending
  by_cases old : S.sys.db.find? id = none
  · obtain ⟨-, -, c, rfl⟩ := rows.new id row' old hrow'
    obtain ⟨hnew, hfree⟩ := inserted_row h old hrow'
    exact ordered row' hnew hfree
  · exact visible_old visible rows hrow' pending old

theorem Session.Visible.receive (visible : S.Visible) {i : ℕ} {deviceId id : String}
    (ordered : S.Ordered G (.receive i)) (h : S.response i = some (deviceId, id)) :
    ({ S with
        cursor := Function.update S.cursor deviceId (some id)
        received := Function.update S.received deviceId (id :: S.received deviceId)
        answered := i :: S.answered } : Session).Visible := by
  intro k row hrow pending
  by_cases hdevice : row.deviceId = deviceId
  · subst hdevice
    simp only [Function.update_self, Option.getD_some]
    simp only [Session.Pending, Function.update_self, List.mem_cons, not_or] at pending
    refine ordered _ _ h k row hrow rfl ?_ ?_
    · exact pending.imp_right fun p => ⟨p.1, p.2.2⟩
    · exact pending.imp_right fun p => p.2.1
  · simp only [Session.Pending, Function.update_of_ne hdevice] at pending ⊢
    exact visible k row hrow pending

/-- A row that shows, by evaluation, that something is hidden. -/
def Session.hides (S : Session) (id : String) : Bool :=
  (S.sys.db.find? id).any fun row =>
    (decide (row.state = .queued) || (decide (row.state = .delivered) &&
      !(S.received row.deviceId).contains row.invocationId)) &&
    !decide ((S.cursor row.deviceId).getD "" < row.invocationId)

theorem hidden (id : String) (h : S.hides id = true) : ¬S.Visible := by
  intro visible
  unfold Session.hides at h
  obtain ⟨row, hrow, hbad⟩ := (Option.any_eq_true ..).mp h
  rw [Bool.and_eq_true, Bool.or_eq_true, Bool.and_eq_true] at hbad
  have above := visible id row hrow (hbad.1.imp (fun hq => by simpa using hq) fun hd =>
    ⟨by simpa using hd.1, by simpa using hd.2⟩)
  simp [above] at hbad

end Metnos.Invocations
