import Metnos.Jobs.Daemon

/-!
# Jobs.Moves — what an act does to one entry

Seen from one entry there is its row, its fire and what happened to it.  Every act moves this view in
one of the ways below, or leaves it alone.
-/

namespace Metnos.Jobs

open Transaction

def Event.entryId : Event → ℕ
  | .started k => k
  | .ended k _ _ _ => k
  | .reset k _ _ => k

section
variable {x : Event} {k : ℕ}

theorem filter_own (own : x.entryId = k) (l : List Event) :
    (x :: l).filter (fun y => y.entryId = k) = x :: l.filter fun y => y.entryId = k :=
  List.filter_cons_of_pos (by simpa using own)

theorem filter_other (ne : k ≠ x.entryId) (l : List Event) :
    (x :: l).filter (fun y => y.entryId = k) = l.filter fun y => y.entryId = k :=
  List.filter_cons_of_neg (by simpa using Ne.symm ne)

end

structure View where
  row : Option ScheduleEntry
  fire : Option Fire
  events : List Event

namespace Daemon

def view (w : Daemon) (k : ℕ) : View :=
  ⟨w.storage.entries.find? k, w.fires.find? k, w.history.filter fun x => x.entryId = k⟩

/-- The row is gone, or it has the same counters and is not enabled anew. -/
def Keeps (row row' : Option ScheduleEntry) : Prop :=
  ∀ r', row' = some r' → ∃ r, row = some r ∧ r'.recurring = r.recurring ∧
    r'.remainingRuns = r.remainingRuns ∧ r'.totalRuns = r.totalRuns ∧
    r'.consecutiveFailures = r.consecutiveFailures ∧ (r'.enabled = true → r.enabled = true)

theorem Keeps.refl (row : Option ScheduleEntry) : Keeps row row :=
  fun r' h => ⟨r', h, rfl, rfl, rfl, rfl, id⟩

section
variable (env : Environment) (k : ℕ) (w : Daemon)

inductive Moves : Act → View → Prop
  | keeps {a row'} (row : Keeps (w.view k).row row') :
    Moves a ⟨row', (w.view k).fire, (w.view k).events⟩
  | registered (e) (target : w.storage.upsertId e = k) :
    Moves (.upsert e) ⟨some { e with id := k }, (w.view k).fire,
      .reset k e.totalRuns e.consecutiveFailures :: (w.view k).events⟩
  | enabled (now next r) (row : (w.view k).row = some r) :
    Moves (.enable k now)
      ⟨some { r with enabled := true, consecutiveFailures := 0, nextFireAt := next },
        (w.view k).fire, .reset k r.totalRuns 0 :: (w.view k).events⟩
  | fetched (now r) (idle : (w.view k).fire = none) (row : (w.view k).row = some r)
      (on : r.enabled = true) :
    Moves (.fetch now) ⟨(w.view k).row, some ⟨r, .due⟩, (w.view k).events⟩
  | dropped {a row'} (x) (fire : (w.view k).fire = some x)
      (stage : x.stage = .due ∨ x.stage = .recorded) (row : Keeps (w.view k).row row') :
    Moves a ⟨row', none, (w.view k).events⟩
  | admitted (now e) (fire : (w.view k).fire = some ⟨e, .due⟩) (bound : inferredRuns env e = none) :
    Moves (.admitFire k now) ⟨(w.view k).row, some ⟨e, .admitted⟩, (w.view k).events⟩
  | inferred (now e n e') (fire : (w.view k).fire = some ⟨e, .due⟩)
      (bound : inferredRuns env e = some n)
      (same : (w.view k).row = none → e' = e) :
    Moves (.admitFire k now)
      ⟨(w.view k).row.map fun r => if r.remainingRuns = 0 then { r with remainingRuns := n } else r,
        some ⟨e', .admitted⟩, (w.view k).events⟩
  | called (now e) (fire : (w.view k).fire = some ⟨e, .admitted⟩) :
    Moves (.call k now)
      ⟨(w.view k).row, some ⟨e, .called w.storage.beginRunId now⟩,
        if env.registered e.callbackKey then .started k :: (w.view k).events else (w.view k).events⟩
  | ended (a now e runId startedAt) (fire : (w.view k).fire = some ⟨e, .called runId startedAt⟩) :
    Moves (.endRun k a now)
      ⟨(w.view k).row, some ⟨e, .ended (callOutcome env e a) (now - startedAt)⟩,
        .ended k runId (if env.registered e.callbackKey then some a else none)
          (callOutcome env e a).status :: (w.view k).events⟩
  | recorded (now e o durationMs) (fire : (w.view k).fire = some ⟨e, .ended o durationMs⟩) :
    Moves (.record k now)
      ⟨(w.view k).row.map (report env e o durationMs now).apply, some ⟨e, .recorded⟩,
        (w.view k).events⟩
  | died : Moves .die ⟨(w.view k).row, none, (w.view k).events⟩

end

/-! ## Fires -/

section
variable {w : Daemon} {k j : ℕ} {x : Fire}

theorem key_of_fire (h : w.fires.find? k = some x) : x.entry.id = k :=
  (Table.key_of_find? h : x.key = k)

theorem find?_setStage_self (h : w.fires.find? k = some x) (stage : Stage) :
    (w.setStage k stage).fires.find? k = some ⟨x.entry, stage⟩ :=
  Table.find?_update_self (Fire.key_toStage stage) h

theorem find?_setStage_ne (ne : k ≠ j) (stage : Stage) :
    (w.setStage j stage).fires.find? k = w.fires.find? k :=
  Table.find?_update_ne (Fire.key_toStage stage) ne

theorem find?_endFire_self (k : ℕ) : (w.endFire k).fires.find? k = none := by
  unfold endFire
  rw [Table.find?_keep]
  rcases h : w.fires.find? k with _ | x
  · rfl
  · rw [Option.filter_some, if_neg]
    simp [show x.key = k from Table.key_of_find? h]

theorem find?_endFire_ne (ne : k ≠ j) : (w.endFire j).fires.find? k = w.fires.find? k := by
  unfold endFire
  rw [Table.find?_keep]
  rcases h : w.fires.find? k with _ | x
  · rfl
  · rw [Option.filter_some, if_pos]
    simp [show x.key = k from Table.key_of_find? h, ne]

end

/-! ## Rows -/

section
variable {st : Storage} {k j : ℕ} {f : ScheduleEntry → ScheduleEntry} {hf : ∀ e, (f e).id = e.id}

theorem keeps_updateEntry (mild : ∀ e, (f e).recurring = e.recurring ∧
      (f e).remainingRuns = e.remainingRuns ∧ (f e).totalRuns = e.totalRuns ∧
      (f e).consecutiveFailures = e.consecutiveFailures ∧ ((f e).enabled = true → e.enabled = true)) :
    Keeps (st.entries.find? k) ((st.updateEntry j f hf).entries.find? k) := by
  intro r' h
  by_cases ne : k = j
  · subst ne
    rw [Storage.find?_updateEntry_self] at h
    obtain ⟨r, hr, rfl⟩ := Option.map_eq_some_iff.mp h
    exact ⟨r, hr, mild r⟩
  · rw [Storage.find?_updateEntry_ne _ _ _ ne] at h
    exact ⟨r', h, rfl, rfl, rfl, rfl, id⟩

theorem keeps_updateNextFire (st : Storage) (k j : ℕ) (t : ℤ) :
    Keeps (st.entries.find? k) ((st.updateNextFire j t).entries.find? k) :=
  keeps_updateEntry fun _ => ⟨rfl, rfl, rfl, rfl, id⟩

theorem keeps_disable (st : Storage) (k j : ℕ) :
    Keeps (st.entries.find? k) ((st.disable j).entries.find? k) :=
  keeps_updateEntry fun _ => ⟨rfl, rfl, rfl, rfl, fun h => by cases h⟩

theorem keeps_keep (t : Table ScheduleEntry ℕ ScheduleEntry.id) (p : ScheduleEntry → Bool) (k : ℕ) :
    Keeps (t.find? k) ((t.keep p).find? k) := by
  intro r' h
  rw [Table.find?_keep, Option.filter_eq_some_iff] at h
  exact ⟨r', h.1, rfl, rfl, rfl, rfl, id⟩

end

/-! ## Acts -/

section
variable {env : Environment} {w w' : Daemon} {k : ℕ}

theorem moves_keeps {a : Act} (row : Keeps (w.view k).row (w'.view k).row)
    (fire : (w'.view k).fire = (w.view k).fire) (events : (w'.view k).events = (w.view k).events) :
    Moves env k w a (w'.view k) := by
  have same : w'.view k = ⟨(w'.view k).row, (w.view k).fire, (w.view k).events⟩ := by
    rw [← fire, ← events]
  rw [same]
  exact .keeps row

theorem moves_idle {a : Act} (same : w'.view k = w.view k) : Moves env k w a (w'.view k) :=
  moves_keeps (by rw [same]; exact Keeps.refl _) (by rw [same]) (by rw [same])

theorem moves_dropped {a : Act} {x : Fire} (fire : w.fires.find? k = some x)
    (stage : x.stage = .due ∨ x.stage = .recorded) (row : Keeps (w.view k).row (w'.view k).row)
    (gone : w'.fires.find? k = none) (events : (w'.view k).events = (w.view k).events) :
    Moves env k w a (w'.view k) := by
  have same : w'.view k = ⟨(w'.view k).row, none, (w.view k).events⟩ := by
    rw [← gone, ← events]
    rfl
  rw [same]
  exact .dropped x fire stage row

theorem moves_skip {e : ScheduleEntry} (fire : w.fires.find? k = some ⟨e, .due⟩) (a : Act)
    (now : ℤ) : Moves env k w a ((w.skip env e now).view k) := by
  have keyed : e.id = k := key_of_fire fire
  unfold skip
  rw [keyed]
  split
  · exact moves_dropped fire (.inl rfl) (keeps_updateNextFire _ _ _ _) (find?_endFire_self k) rfl
  · exact moves_dropped fire (.inl rfl) (Keeps.refl _) (find?_endFire_self k) rfl

theorem view_skip_ne {e : ScheduleEntry} (ne : k ≠ e.id) (now : ℤ) :
    (w.skip env e now).view k = w.view k := by
  have fires := find?_endFire_ne (w := w) ne
  unfold skip
  split
  · unfold view
    rw [View.mk.injEq]
    exact ⟨Storage.find?_updateEntry_ne _ _ _ ne, fires, rfl⟩
  · unfold view
    rw [View.mk.injEq]
    exact ⟨rfl, fires, rfl⟩

theorem view_disable_ne {j : ℕ} (ne : k ≠ j) :
    ({ w with storage := w.storage.disable j }.endFire j).view k = w.view k := by
  have fires := find?_endFire_ne (w := w) ne
  unfold view
  rw [View.mk.injEq]
  exact ⟨Storage.find?_updateEntry_ne _ _ _ ne, fires, rfl⟩

theorem moves_enter {e : ScheduleEntry} (fire : w.fires.find? k = some ⟨e, .due⟩) (now : ℤ) :
    Moves env k w (.admitFire k now) ((w.enter env e).view k) := by
  obtain rfl : e.id = k := key_of_fire fire
  rcases bound : inferredRuns env e with _ | n
  · have same : (w.enter env e).view e.id =
        ⟨(w.view e.id).row, some ⟨e, .admitted⟩, (w.view e.id).events⟩ := by
      unfold enter
      rw [bound]
      unfold view
      rw [View.mk.injEq]
      exact ⟨rfl, find?_setStage_self (x := ⟨e, .due⟩) fire _, rfl⟩
    rw [same]
    exact .admitted now e fire bound
  · have entered : (w.enter env e).fires.find? e.id =
        some (Fire.toAdmitted (w.storage.uninitialized e.id) n ⟨e, .due⟩) := by
      unfold enter
      rw [bound]
      exact Table.find?_update_self (Fire.key_toAdmitted _ _) fire
    have row : (w.enter env e).storage.entries.find? e.id = (w.view e.id).row.map fun r =>
        if r.remainingRuns = 0 then { r with remainingRuns := n } else r := by
      unfold enter
      rw [bound]
      exact Storage.find?_updateEntry_self _ _
    have events : (w.enter env e).history = w.history := by
      unfold enter
      rw [bound]
    have same : (w.enter env e).view e.id =
        ⟨(w.view e.id).row.map fun r =>
          if r.remainingRuns = 0 then { r with remainingRuns := n } else r,
          some (Fire.toAdmitted (w.storage.uninitialized e.id) n ⟨e, .due⟩),
          (w.view e.id).events⟩ := by
      rw [← entered, ← row]
      unfold view
      rw [events]
    rw [same]
    refine .inferred now e n _ fire bound fun gone => ?_
    have missing : w.storage.uninitialized e.id = false := by
      unfold Storage.uninitialized
      rw [show w.storage.entries.find? e.id = none from gone]
      rfl
    rw [missing]
    rfl

theorem view_enter_ne {e : ScheduleEntry} (ne : k ≠ e.id) : (w.enter env e).view k = w.view k := by
  unfold enter
  split
  · unfold view
    rw [View.mk.injEq]
    exact ⟨rfl, find?_setStage_ne ne _, rfl⟩
  · unfold view
    rw [View.mk.injEq]
    exact ⟨Storage.find?_updateEntry_ne _ _ _ ne,
      Table.find?_update_ne (Fire.key_toAdmitted _ _) ne, rfl⟩

theorem moves_admitFire {e : ScheduleEntry} (fire : w.fires.find? k = some ⟨e, .due⟩) (now : ℤ) :
    Moves env k w (.admitFire k now) ((w.admitFire env e now).view k) := by
  have keyed : e.id = k := key_of_fire fire
  have disabled : Moves env k w (.admitFire k now)
      (({ w with storage := w.storage.disable e.id }.endFire e.id).view k) := by
    rw [keyed]
    exact moves_dropped fire (.inl rfl) (keeps_disable _ _ _) (find?_endFire_self k) rfl
  unfold admitFire
  split_ifs
  · exact moves_skip fire _ now
  · exact disabled
  · exact disabled
  · exact moves_skip fire _ now
  · rw [keyed]
    exact moves_dropped fire (.inl rfl) (Keeps.refl _) (find?_endFire_self k) rfl
  · exact moves_enter fire now

theorem view_endFire_ne {j : ℕ} (ne : k ≠ j) : (w.endFire j).view k = w.view k := by
  unfold view
  rw [find?_endFire_ne ne]
  rfl

theorem view_admitFire_ne {e : ScheduleEntry} (ne : k ≠ e.id) (now : ℤ) :
    (w.admitFire env e now).view k = w.view k := by
  unfold admitFire
  split_ifs
  · exact view_skip_ne ne now
  · exact view_disable_ne ne
  · exact view_disable_ne ne
  · exact view_skip_ne ne now
  · exact view_endFire_ne ne
  · exact view_enter_ne ne

theorem moves_call {e : ScheduleEntry} (fire : w.fires.find? k = some ⟨e, .admitted⟩) (now : ℤ) :
    Moves env k w (.call k now) ((w.call env e now).view k) := by
  obtain rfl : e.id = k := key_of_fire fire
  have same : (w.call env e now).view e.id =
      ⟨(w.view e.id).row, some ⟨e, .called w.storage.beginRunId now⟩,
        if env.registered e.callbackKey then .started e.id :: (w.view e.id).events
        else (w.view e.id).events⟩ := by
    unfold call view
    rw [View.mk.injEq]
    refine ⟨rfl, find?_setStage_self (x := ⟨e, .admitted⟩) fire _, ?_⟩
    show (if env.registered e.callbackKey then .started e.id :: w.history else w.history).filter _ = _
    split_ifs
    · exact filter_own rfl _
    · rfl
  rw [same]
  exact .called now e fire

theorem view_call_ne {e : ScheduleEntry} (ne : k ≠ e.id) (now : ℤ) :
    (w.call env e now).view k = w.view k := by
  unfold call view
  rw [View.mk.injEq]
  refine ⟨rfl, find?_setStage_ne ne _, ?_⟩
  show (if env.registered e.callbackKey then .started e.id :: w.history else w.history).filter _ = _
  split_ifs
  · exact filter_other ne _
  · rfl

theorem moves_endRun {e : ScheduleEntry} {runId : ℕ} {startedAt : ℤ}
    (fire : w.fires.find? k = some ⟨e, .called runId startedAt⟩) (a : Awaited) (now : ℤ) :
    Moves env k w (.endRun k a now) ((w.endRun env e runId startedAt a now).view k) := by
  obtain rfl : e.id = k := key_of_fire fire
  have same : (w.endRun env e runId startedAt a now).view e.id =
      ⟨(w.view e.id).row, some ⟨e, .ended (callOutcome env e a) (now - startedAt)⟩,
        .ended e.id runId (if env.registered e.callbackKey then some a else none)
          (callOutcome env e a).status :: (w.view e.id).events⟩ := by
    unfold endRun view
    rw [View.mk.injEq]
    refine ⟨rfl, find?_setStage_self (x := ⟨e, .called runId startedAt⟩) fire _, ?_⟩
    exact filter_own rfl _
  rw [same]
  exact .ended a now e runId startedAt fire

theorem view_endRun_ne {e : ScheduleEntry} (ne : k ≠ e.id) (runId : ℕ) (startedAt : ℤ) (a : Awaited)
    (now : ℤ) : (w.endRun env e runId startedAt a now).view k = w.view k := by
  unfold endRun view
  rw [View.mk.injEq]
  refine ⟨rfl, find?_setStage_ne ne _, ?_⟩
  exact filter_other ne _

theorem moves_record {e : ScheduleEntry} {o : Outcome} {durationMs : ℤ}
    (fire : w.fires.find? k = some ⟨e, .ended o durationMs⟩) (now : ℤ) :
    Moves env k w (.record k now) ((w.record env e o durationMs now).view k) := by
  obtain rfl : e.id = k := key_of_fire fire
  have same : (w.record env e o durationMs now).view e.id =
      ⟨(w.view e.id).row.map (report env e o durationMs now).apply, some ⟨e, .recorded⟩,
        (w.view e.id).events⟩ := by
    unfold record view
    rw [View.mk.injEq]
    exact ⟨Storage.find?_updateEntry_self _ _,
      find?_setStage_self (x := ⟨e, .ended o durationMs⟩) fire _, rfl⟩
  rw [same]
  exact .recorded now e o durationMs fire

theorem view_record_ne {e : ScheduleEntry} (ne : k ≠ e.id) (o : Outcome) (durationMs now : ℤ) :
    (w.record env e o durationMs now).view k = w.view k := by
  unfold record view
  rw [View.mk.injEq]
  exact ⟨Storage.find?_updateEntry_ne _ _ _ ne, find?_setStage_ne ne _, rfl⟩

theorem moves_leave {e : ScheduleEntry} (fire : w.fires.find? k = some ⟨e, .recorded⟩)
    (cancelled : Bool) : Moves env k w (.leave k cancelled) ((w.leave k cancelled).view k) := by
  have gone : (w.leave k cancelled).fires.find? k = none := by
    cases cancelled <;> exact find?_endFire_self k
  cases cancelled <;> exact moves_dropped fire (.inr rfl) (Keeps.refl _) gone rfl

theorem view_leave_ne {j : ℕ} (ne : k ≠ j) (cancelled : Bool) :
    (w.leave j cancelled).view k = w.view k := by
  have fires := find?_endFire_ne (w := w) ne
  cases cancelled <;> (unfold view; rw [View.mk.injEq]; exact ⟨rfl, fires, rfl⟩)

theorem moves_upsert (e : ScheduleEntry) : Moves env k w (.upsert e)
    ((w.restart (w.storage.upsert e) (w.storage.upsertId e)).view k) := by
  have row := Storage.find?_upsert w.storage e
  by_cases target : k = w.storage.upsertId e
  · subst target
    have same : (w.restart (w.storage.upsert e) (w.storage.upsertId e)).view (w.storage.upsertId e) =
        ⟨some { e with id := w.storage.upsertId e }, (w.view (w.storage.upsertId e)).fire,
          .reset (w.storage.upsertId e) e.totalRuns e.consecutiveFailures ::
            (w.view (w.storage.upsertId e)).events⟩ := by
      have row := row (w.storage.upsertId e)
      rw [if_pos rfl] at row
      unfold restart view reset
      rw [View.mk.injEq]
      refine ⟨row, rfl, ?_⟩
      rw [row]
      exact filter_own rfl _
    rw [same]
    exact .registered e rfl
  · refine moves_idle ?_
    unfold restart view reset
    rw [View.mk.injEq]
    refine ⟨(row k).trans (if_neg target), rfl, ?_⟩
    rw [row, if_pos rfl]
    exact filter_other target _

theorem moves_enable (j : ℕ) (now : ℤ) : Moves env k w (.enable j now)
    ((w.restart (w.storage.enable (fun t => env.nextFire t defaultZone now) j) j).view k) := by
  have self : (w.storage.enable (fun t => env.nextFire t defaultZone now) j).entries.find? j = _ :=
    Storage.find?_updateEntry_self w.storage j
  by_cases target : k = j
  · subst target
    rcases row : w.storage.entries.find? k with _ | r
    · refine moves_idle ?_
      unfold restart view reset
      rw [View.mk.injEq, self, row]
      exact ⟨rfl, rfl, rfl⟩
    · have same : (w.restart (w.storage.enable (fun t => env.nextFire t defaultZone now) k) k).view k =
          ⟨some { r with
              enabled := true
              consecutiveFailures := 0
              nextFireAt := (env.nextFire r.trigger defaultZone now).getD r.nextFireAt },
            (w.view k).fire, .reset k r.totalRuns 0 :: (w.view k).events⟩ := by
        unfold restart view reset
        rw [View.mk.injEq, self, row]
        exact ⟨rfl, rfl, filter_own rfl _⟩
      rw [same]
      exact .enabled now _ r row
  · refine moves_idle ?_
    unfold restart view reset
    rw [View.mk.injEq, self]
    refine ⟨Storage.find?_updateEntry_ne _ _ _ target, rfl, ?_⟩
    rcases w.storage.entries.find? j with _ | r
    · rfl
    · exact filter_other target _

theorem moves_fetch (now : ℤ) (idle : w.fires.rows.isEmpty = true) :
    Moves env k w (.fetch now) ((w.fetch now).view k) := by
  have none : (w.view k).fire = none := by
    refine Table.find?_eq_none.mpr fun x hx => ?_
    rw [List.isEmpty_iff.mp idle] at hx
    cases hx
  rcases fetched : (w.fetch now).fires.find? k with _ | x
  · refine moves_keeps (Keeps.refl _) ?_ rfl
    rw [none]
    exact fetched
  · obtain ⟨mem, keyed⟩ := Table.find?_eq_some.mp fetched
    obtain ⟨r, hr, rfl⟩ := List.mem_map.mp mem
    obtain ⟨row, due⟩ := Table.mem_select hr
    rw [Bool.and_eq_true] at due
    have found : w.storage.entries.find? k = some r := Table.find?_eq_some.mpr ⟨row, keyed⟩
    have same : (w.fetch now).view k = ⟨(w.view k).row, some ⟨r, .due⟩, (w.view k).events⟩ := by
      unfold view
      rw [View.mk.injEq]
      exact ⟨rfl, fetched, rfl⟩
    rw [same]
    exact .fetched now r none found due.1

theorem transact_moves {a : Act} (h : transact env w a = .ok w') (k : ℕ) :
    Moves env k w a (w'.view k) := by
  cases a with
  | upsert e =>
    cases h
    exact moves_upsert e
  | delete name =>
    cases h
    exact moves_keeps (keeps_keep _ _ _) rfl rfl
  | purgeNames names =>
    cases h
    exact moves_keeps (keeps_keep _ _ _) rfl rfl
  | enable j now =>
    cases h
    exact moves_enable j now
  | disable j =>
    cases h
    exact moves_keeps (keeps_disable _ _ _) rfl rfl
  | updateNextFire j t =>
    cases h
    exact moves_keeps (keeps_updateNextFire _ _ _ _) rfl rfl
  | boot now =>
    simp only [transact] at h
    split_ifs at h
    cases h
    exact moves_idle rfl
  | fetch now =>
    simp only [transact] at h
    split_ifs at h with idle
    cases h
    exact moves_fetch now idle
  | cancel j =>
    simp only [transact] at h
    split at h
    · rename_i e fire
      cases h
      by_cases target : k = j
      · subst target
        exact moves_dropped fire (.inl rfl) (Keeps.refl _) (find?_endFire_self k) rfl
      · exact moves_idle (view_endFire_ne target)
    · cases h
  | admitFire j now =>
    simp only [transact] at h
    split at h
    · rename_i e fire
      cases h
      by_cases target : k = j
      · subst target
        exact moves_admitFire fire now
      · exact moves_idle (view_admitFire_ne (by rw [key_of_fire fire]; exact target) now)
    · cases h
  | call j now =>
    simp only [transact] at h
    split at h
    · rename_i e fire
      cases h
      by_cases target : k = j
      · subst target
        exact moves_call fire now
      · exact moves_idle (view_call_ne (by rw [key_of_fire fire]; exact target) now)
    · cases h
  | endRun j a now =>
    simp only [transact] at h
    split at h
    · rename_i e runId startedAt fire
      cases h
      by_cases target : k = j
      · subst target
        exact moves_endRun fire a now
      · exact moves_idle (view_endRun_ne (by rw [key_of_fire fire]; exact target) _ _ _ now)
    · cases h
  | record j now =>
    simp only [transact] at h
    split at h
    · rename_i e o durationMs fire
      cases h
      by_cases target : k = j
      · subst target
        exact moves_record fire now
      · exact moves_idle (view_record_ne (by rw [key_of_fire fire]; exact target) _ _ now)
    · cases h
  | leave j cancelled =>
    simp only [transact] at h
    split at h
    · rename_i e fire
      cases h
      by_cases target : k = j
      · subst target
        exact moves_leave fire cancelled
      · exact moves_idle (view_leave_ne target cancelled)
    · cases h
  | die =>
    cases h
    exact .died

end

end Daemon

end Metnos.Jobs
