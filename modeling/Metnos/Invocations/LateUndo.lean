import Metnos.Invocations.Undo

/-!
# Invocations.LateUndo — when a late result leaves the undo log as a timely one

A turn that gives up closes its operation as one without effect, so the late result finds nothing to
close; and where the turn died first, the late result is read in the transport's envelope and closes
every open operation of the turn on the device.
-/

namespace Metnos.Invocations

/-! ### Completions -/

/-- How an outcome closes an operation; a reversible one is done. -/
def UndoOutcome.closedAs : UndoOutcome → Option UndoOutcome
  | .reversible => none
  | .noEffect => some .noEffect
  | .irreversible | .invalid => some .irreversible

def completionOf (results : Fields) (contract : String) : Completion :=
  match (executionUndoOutcome results contract).closedAs with
  | some outcome => .closed outcome
  | none => .done results

theorem completes_self (opId : String) (results : Fields) (contract : String) :
    (completionRecord opId results contract).completes opId =
      some (completionOf results contract) := by
  unfold completionRecord completionOf
  cases executionUndoOutcome results contract <;>
    simp [UndoRecord.completes, UndoOutcome.closedAs]

theorem completionRecord_opId (opId : String) (results : Fields) (contract : String) :
    (completionRecord opId results contract).opId = opId := by
  unfold completionRecord
  split <;> rfl

theorem completes_other {record : UndoRecord} {opId : String} (h : record.opId ≠ opId) :
    record.completes opId = none := by
  cases record <;> simp_all [UndoRecord.completes, UndoRecord.opId]

theorem completion_append (a b : UndoLog) (opId : String) :
    UndoLog.completion (a ++ b) opId = (UndoLog.completion b opId).or (UndoLog.completion a opId) := by
  unfold UndoLog.completion
  rw [List.filterMap_append, List.getLast?_append]

theorem completion_fresh {log : UndoLog} {opId : String} (h : ∀ r ∈ log, r.opId ≠ opId) :
    log.completion opId = none := by
  unfold UndoLog.completion
  rw [List.getLast?_eq_none_iff, List.filterMap_eq_nil_iff]
  exact fun r hr => completes_other (h r hr)

theorem completion_record (opId : String) (results : Fields) (contract : String) :
    UndoLog.completion [completionRecord opId results contract] opId =
      some (completionOf results contract) := by
  unfold UndoLog.completion
  rw [List.filterMap_cons, completes_self]
  rfl

theorem completion_pending (o : Operation) (opId : String) :
    UndoLog.completion [o.pending] opId = none := rfl

/-! ### Closing the open operations -/

section Closing

variable {log : UndoLog} {turnId device opId : String} {results : Fields}

theorem mem_opIds : opId ∈ log.opIds ↔ opId ≠ "" ∧ ∃ r ∈ log, r.opId = opId := by
  unfold UndoLog.opIds
  rw [List.mem_filter, List.mem_eraseDups, List.mem_map]
  simp [and_comm]

theorem openFor_mem {contract : String} (h : log.openFor turnId device opId = some contract) :
    ∃ r ∈ log, r.opId = opId := by
  unfold UndoLog.openFor at h
  split at h
  · rename_i turn dev c hpending
    unfold UndoLog.pending? at hpending
    obtain ⟨r, hr, hsome⟩ := List.mem_filterMap.mp (List.mem_of_getLast? hpending)
    refine ⟨r, hr, ?_⟩
    cases r with
    | pending op t d k =>
      simp only [UndoRecord.starts, Option.ite_none_right_eq_some] at hsome
      exact hsome.1
    | _ => cases hsome
  · cases h

theorem openFor_completion {contract : String}
    (h : log.openFor turnId device opId = some contract) : log.completion opId = none := by
  unfold UndoLog.openFor at h
  split at h
  · split at h
    · rename_i hopen
      simp only [Bool.and_eq_true, Option.isNone_iff_eq_none] at hopen
      exact hopen.1.1.1
    · cases h
  · cases h

theorem completion_closed (log : UndoLog) (turnId device : String) (results : Fields)
    (opId : String) :
    UndoLog.completion (log.opIds.filterMap fun op =>
        (log.openFor turnId device op).map fun c => completionRecord op results c) opId =
      if opId ∈ log.opIds then (log.openFor turnId device opId).map (completionOf results)
      else none := by
  unfold UndoLog.completion
  rw [List.filterMap_filterMap]
  have step : ∀ op, ((log.openFor turnId device op).map fun c =>
      completionRecord op results c).bind (UndoRecord.completes opId) =
      if op = opId then (log.openFor turnId device opId).map (completionOf results) else none := by
    intro op
    cases hopen : log.openFor turnId device op with
    | none =>
      split
      · rename_i heq
        rw [← heq, hopen]
        rfl
      · rfl
    | some c =>
      split
      · rename_i heq
        subst heq
        rw [hopen]
        exact completes_self op results c
      · rename_i hne
        exact completes_other (by rw [completionRecord_opId]; exact hne)
  simp only [step]
  induction log.opIds with
  | nil => rfl
  | cons op ids ih =>
    rw [List.filterMap_cons]
    by_cases hop : op = opId
    · subst hop
      rw [if_pos rfl, if_pos List.mem_cons_self]
      cases hopen : log.openFor turnId device op with
      | none =>
        rw [hopen] at ih
        simp only [Option.map_none, ite_self] at ih ⊢
        exact ih
      | some c =>
        rw [hopen] at ih
        simp only [Option.map_some] at ih ⊢
        rw [List.getLast?_cons, ih]
        split <;> rfl
    · rw [if_neg hop]
      simp only [List.mem_cons, Ne.symm hop, false_or]
      exact ih

theorem completion_closePending (turn : turnId ≠ "") :
    (log.closePendingForTurn turnId results device).completion opId =
      (if opId ∈ log.opIds then (log.openFor turnId device opId).map (completionOf results)
        else none).or (log.completion opId) := by
  unfold UndoLog.closePendingForTurn
  rw [if_neg turn, completion_append, completion_closed]

end Closing

/-! ### Fields -/

theorem get?_pop (fields : Fields) (t k : String) :
    Json.get? (fields.pop t) k = if k = t then none else Json.get? fields k := by
  unfold Json.get? Fields.pop
  rw [List.find?_filter]
  split
  · rename_i hk
    subst hk
    rw [Option.map_eq_none_iff, List.find?_eq_none]
    simp
  · rename_i hk
    congr 2
    funext f
    by_cases hf : f.1 = k <;> simp [hf, hk]

theorem get?_isSome {fields : Fields} {k : String} :
    (Json.get? fields k).isSome = fields.any fun f => f.1 = k := by
  unfold Json.get?
  rw [Option.isSome_map, Bool.eq_iff_iff, List.find?_isSome, List.any_eq_true]

theorem setDefault_of_isSome {fields : Fields} {k : String} {v : Json}
    (h : (Json.get? fields k).isSome = true) : fields.setDefault k v = fields := by
  unfold Fields.setDefault
  rw [get?_isSome] at h
  rw [if_pos h]

theorem get?_setDefault_ne (fields : Fields) {k k' : String} (v : Json) (h : k' ≠ k) :
    Json.get? (fields.setDefault k v) k' = Json.get? fields k' := by
  unfold Fields.setDefault
  split
  · rfl
  · unfold Json.get?
    rw [List.find?_append]
    simp [Ne.symm h]

theorem get?_setDefault_self (fields : Fields) (k : String) (v : Json) :
    (Json.get? (fields.setDefault k v) k).isSome = true := by
  unfold Fields.setDefault
  split
  · rename_i h
    rw [get?_isSome]
    exact h
  · rw [get?_isSome]
    simp

theorem get?_set_ne (fields : Fields) {k k' : String} (v : Json) (h : k' ≠ k) :
    Json.get? (fields.set k v) k' = Json.get? fields k' := by
  unfold Fields.set
  split
  · unfold Json.get?
    rw [List.find?_map, Option.map_map]
    have same : ((fun f : String × Json => decide (f.1 = k')) ∘ fun f =>
        if f.1 = k then (k, v) else f) = fun f => decide (f.1 = k') := by
      funext f
      by_cases hf : f.1 = k
      · simp [hf, Ne.symm h]
      · simp [hf]
    rw [same]
    cases hfind : fields.find? fun f => decide (f.1 = k') with
    | none => rfl
    | some f =>
      have hk' : f.1 = k' := by simpa using List.find?_some hfind
      have hne : f.1 ≠ k := hk' ▸ h
      simp [hne]
  · unfold Json.get?
    rw [List.find?_append]
    simp [Ne.symm h]

theorem pop_of_absent {fields : Fields} {k : String} (h : Json.get? fields k = none) :
    fields.pop k = fields := by
  unfold Fields.pop
  rw [List.filter_eq_self]
  intro f hf
  have found : (Json.get? fields k).isSome = fields.any fun f => f.1 = k := get?_isSome
  rw [h, Option.isSome_none] at found
  simpa using List.any_eq_false.mp found.symm f hf

theorem pop_setDefault (fields : Fields) (k : String) (v : Json) :
    (fields.setDefault k v).pop k = fields.pop k := by
  unfold Fields.setDefault
  split
  · rfl
  · unfold Fields.pop
    rw [List.filter_append]
    simp

theorem not_self_field {fields : Fields} {k : String} :
    Json.get? fields k ≠ some (.obj fields) := by
  intro h
  unfold Json.get? at h
  obtain ⟨f, hf, hv⟩ := Option.map_eq_some_iff.mp h
  have hmem := List.mem_of_find?_eq_some hf
  have h1 := List.sizeOf_lt_of_mem hmem
  have h2 : sizeOf f.2 < sizeOf f := by
    obtain ⟨a, b⟩ := f
    simp
  rw [hv] at h2
  simp at h2
  omega

/-! ### A late result -/

/-- A turn that gave up waiting for an operation, and the result that comes afterwards.  `before`
and `later` are the records of other operations, `recorded` says whether the turn lived to close
the operation when its wait was over. -/
structure LateResult where
  texts : Texts
  op : Operation
  invocationId : String
  before : UndoLog
  recorded : Bool
  later : UndoLog
  db : Db
  row : Row
  dev : Option Device
  verified : Bool
  result : Fields
  now : ℚ
  named : op.opId ≠ ""
  fresh : ∀ r ∈ before ++ later, r.opId ≠ op.opId
  found : db.find? invocationId = some row
  open_ : row.state ≠ .done ∧ row.state ≠ .failed
  late : row.abandonedByTurn = true ∨ row.state = .expired
  executor : payloadText row.payload "executor" = op.executor
  turn : payloadText row.payload "turn_id" = op.turnId
  own : row.deviceId = op.device
  invocation : field? result "invocation_id" = some invocationId
  device : field? result "device_id" = some op.device
  success : succeeded result = true
  accepted : dev.any (fun d => !d.revoked) = true ∧ verified = true

namespace LateResult

variable (R : LateResult)

/-- The log when the turn starts the operation. -/
def started : UndoLog := R.before ++ [R.op.pending]

def log : UndoLog :=
  R.started ++ (if R.recorded then
    [R.op.undoDone (timeoutObservation R.texts R.op R.invocationId)] else []) ++ R.later

def after : UndoLog := closeLateUndo R.log R.row.payload R.result

/-- The claim: the operation is classified as with the result in time, and no other one moves. -/
def AsTimely : Prop :=
  R.after.completion R.op.opId =
    UndoLog.completion (R.started ++ timelyRecords R.texts R.op R.result) R.op.opId ∧
  ∀ opId, opId ≠ R.op.opId → R.after.completion opId = R.log.completion opId

/-- `_close_late_undo` returns without a look at the log. -/
def Inert : Prop := R.op.turnId = "" ∨ verb R.op.executor ∉ mutatingPrefixes

instance : Decidable R.Inert :=
  inferInstanceAs (Decidable (R.op.turnId = "" ∨ verb R.op.executor ∉ mutatingPrefixes))

/-- No other operation of the turn on this device is open, or nothing is closed at all. -/
def Alone : Prop :=
  R.Inert ∨ ∀ opId, opId ≠ R.op.opId → opId ≠ "" →
    R.log.openFor R.op.turnId R.op.device opId = none

/-- The result has no payload, and the dispatcher has nothing to add to it or to take away. -/
def Plain : Prop :=
  payloadOf R.result = none ∧
  (R.op.targetDevice.isSome → R.op.token ≠ some "_ran_on_device" →
    (Json.get? R.result "_ran_on_device").isSome) ∧
  ∀ token, R.op.token = some token → Json.get? R.result token = none

/-- How the observation in time closes the operation. -/
def timelyClosed (observation : Fields) : Option UndoOutcome :=
  (executionUndoOutcome (R.op.finish observation) R.op.outcomeContract).closedAs

/-- When the late result classifies the operation as a timely one would. -/
def OwnKept : Prop :=
  match observe R.texts R.result with
  | some observation =>
    if R.recorded then
      -- what the end of the wait recorded is what the result shows
      R.timelyClosed observation =
        some (if R.op.outcomeContract = perExecutionOutcome then .irreversible else .noEffect)
    else ¬R.Inert ∧ (R.Plain ∨ ∃ outcome, R.timelyClosed observation = some outcome ∧
      (executionUndoOutcome R.result R.op.outcomeContract).closedAs = some outcome)
  | none => R.recorded = false ∧ R.Inert

theorem records : ∃ db', recordResult R.db R.log R.dev R.verified R.result R.now =
    .ok (db', R.after) := by
  have hdev : (!R.dev.any fun d => !d.revoked) = false := by rw [R.accepted.1]; rfl
  have hverified : (!R.verified) = false := by rw [R.accepted.2]; rfl
  refine ⟨R.db.updateWhere (fun r => r.invocationId = R.invocationId)
    (Row.complete .done (.obj R.result) R.now) fun _ => rfl, ?_⟩
  unfold recordResult completeInvocation
  simp only [R.invocation, R.device, hdev, hverified, Bool.or_false, Bool.false_eq_true, if_false,
    R.found, R.own, ne_eq, not_true_eq_false, R.open_.1, R.open_.2, or_self, Option.bind_some,
    not_false_eq_true, R.late, R.success, and_self, if_true]
  rfl

theorem before_fresh : ∀ r ∈ R.before, r.opId ≠ R.op.opId :=
  fun r hr => R.fresh r (List.mem_append_left _ hr)

theorem later_fresh : ∀ r ∈ R.later, r.opId ≠ R.op.opId :=
  fun r hr => R.fresh r (List.mem_append_right _ hr)

theorem started_completion : R.started.completion R.op.opId = none := by
  unfold started
  rw [completion_append, completion_pending, completion_fresh R.before_fresh]
  rfl

theorem timely_completion :
    UndoLog.completion (R.started ++ timelyRecords R.texts R.op R.result) R.op.opId =
      (observe R.texts R.result).map fun observation =>
        completionOf (R.op.finish observation) R.op.outcomeContract := by
  rw [completion_append, R.started_completion, Option.or_none]
  unfold timelyRecords
  cases observe R.texts R.result with
  | none => rfl
  | some observation => exact completion_record _ _ _

theorem log_completion : R.log.completion R.op.opId =
    if R.recorded then some (completionOf
      (R.op.finish (timeoutObservation R.texts R.op R.invocationId)) R.op.outcomeContract)
    else none := by
  unfold log
  rw [completion_append, completion_fresh R.later_fresh, Option.none_or, completion_append,
    R.started_completion, Option.or_none]
  split
  · exact completion_record _ _ _
  · rfl

theorem mark_get? (o : Operation) (observation : Fields) {k : String}
    (h : k ≠ "_ran_on_device") : Json.get? (o.mark observation) k = Json.get? observation k := by
  unfold Operation.mark
  split
  · exact get?_setDefault_ne observation _ h
  · rfl

theorem finish_get? (o : Operation) (observation : Fields) {k : String}
    (h : k ≠ "_ran_on_device") : Json.get? (o.finish observation) k =
      if o.token = some k then none else Json.get? observation k := by
  unfold Operation.finish
  cases o.token with
  | none => simpa using mark_get? o observation h
  | some token =>
    simp only [Option.some.injEq]
    rw [get?_pop, mark_get? o observation h]
    by_cases hk : k = token
    · rw [if_pos hk, if_pos hk.symm]
    · rw [if_neg hk, if_neg (Ne.symm hk)]

theorem timeout_completion (T : Texts) (o : Operation) (id : String) :
    completionOf (o.finish (timeoutObservation T o id)) o.outcomeContract =
      .closed (if o.outcomeContract = perExecutionOutcome then .irreversible else .noEffect) := by
  have ok : (o.finish (timeoutObservation T o id)).holds "ok" = false := by
    unfold Fields.holds
    rw [finish_get? o _ (by decide)]
    split <;> rfl
  have absent : ∀ k, k ≠ "_ran_on_device" → Json.get? (timeoutObservation T o id) k = none →
      Json.get? (o.finish (timeoutObservation T o id)) k = none := by
    intro k hk hnone
    rw [finish_get? o _ hk, hnone, ite_self]
  have okCount : (o.finish (timeoutObservation T o id)).holds "ok_count" = false := by
    unfold Fields.holds
    rw [absent _ (by decide) rfl]
    rfl
  have results : (o.finish (timeoutObservation T o id)).holds "results" = false := by
    unfold Fields.holds
    rw [absent _ (by decide) rfl]
    rfl
  have undo : declaredOutcome (o.finish (timeoutObservation T o id)) = .invalid := by
    unfold declaredOutcome
    rw [absent _ (by decide) rfl]
  unfold completionOf executionUndoOutcome mutatedResult
  rw [ok, okCount, results, undo]
  by_cases hcontract : o.outcomeContract = perExecutionOutcome <;>
    simp [hcontract, UndoOutcome.closedAs]

theorem ok_isSome : (Json.get? R.result "ok").isSome = true := by
  have h := R.success
  unfold succeeded at h
  obtain ⟨v, hv, -⟩ := (Option.any_eq_true ..).mp h
  rw [hv]
  rfl

theorem merged_get? {T : Texts} {payload observation result : Fields}
    (hpayload : payloadOf result = some payload) (h : observe T result = some observation) :
    Json.get? observation "payload" = Json.get? payload "payload" := by
  unfold observe at h
  rw [hpayload] at h
  simp only [Option.bind_eq_bind, Option.bind_eq_some_iff, Option.pure_def, Option.some.injEq] at h
  obtain ⟨localized, hlocalized, merged, hmerged, rfl⟩ := h
  rw [get?_set_ne _ _ (by decide), get?_setDefault_ne _ _ (by decide)]
  have second : Json.get? merged "payload" = Json.get? localized "payload" := by
    unfold localizeFailed at hmerged
    split at hmerged
    · obtain ⟨items, -, rfl⟩ := Option.map_eq_some_iff.mp hmerged
      exact get?_set_ne _ _ (by decide)
    · split at hmerged
      · exact congrArg (Json.get? · "payload") (Option.some.inj hmerged).symm
      · cases hmerged
    · split at hmerged
      · cases hmerged
      · exact congrArg (Json.get? · "payload") (Option.some.inj hmerged).symm
    · cases hmerged
    · exact congrArg (Json.get? · "payload") (Option.some.inj hmerged).symm
  have first : Json.get? localized "payload" = Json.get? payload "payload" := by
    unfold localize at hlocalized
    split at hlocalized
    · rw [← Option.some.inj hlocalized]
      split
      · exact get?_set_ne _ _ (by decide)
      · rfl
    · cases hlocalized
    · cases hlocalized
    · exact congrArg (Json.get? · "payload") (Option.some.inj hlocalized).symm
  exact second.trans first

theorem get?_of_payloadOf {result payload : Fields} (h : payloadOf result = some payload) :
    Json.get? result "payload" = some (.obj payload) := by
  unfold payloadOf at h
  split at h
  · rename_i fields hfields
    split at h
    · cases h
    · rw [hfields, Option.some.inj h]
  · cases h

theorem finish_eq_iff {observation : Fields} (h : observe R.texts R.result = some observation) :
    R.op.finish observation = R.result ↔ R.Plain := by
  constructor
  · intro eq
    refine ⟨?_, fun htarget htoken => ?_, fun token htoken => ?_⟩
    · cases hpayload : payloadOf R.result with
      | none => rfl
      | some payload =>
        have inner := finish_get? R.op observation (k := "payload") (by decide)
        rw [eq, get?_of_payloadOf hpayload, merged_get? hpayload h] at inner
        split at inner
        · cases inner
        · exact absurd inner.symm not_self_field
    · obtain ⟨name, hname⟩ := Option.isSome_iff_exists.mp htarget
      have marked : (Json.get? (R.op.mark observation) "_ran_on_device").isSome = true := by
        unfold Operation.mark
        rw [hname]
        exact get?_setDefault_self _ _ _
      rw [← eq]
      unfold Operation.finish
      cases htok : R.op.token with
      | none => exact marked
      | some token =>
        have hne : ¬"_ran_on_device" = token := fun e => htoken (by rw [htok, e])
        show (Json.get? ((R.op.mark observation).pop token) "_ran_on_device").isSome = true
        rw [get?_pop, if_neg hne]
        exact marked
    · rw [← eq]
      unfold Operation.finish
      rw [htoken]
      show Json.get? ((R.op.mark observation).pop token) token = none
      rw [get?_pop, if_pos rfl]
  · rintro ⟨hpayload, hmark, htoken⟩
    have hobs : observation = R.result := by
      unfold observe at h
      rw [hpayload] at h
      rw [← Option.some.inj h]
      exact setDefault_of_isSome R.ok_isSome
    subst hobs
    unfold Operation.finish Operation.mark
    cases htok : R.op.token with
    | none =>
      cases htarget : R.op.targetDevice with
      | none => rfl
      | some name =>
        exact setDefault_of_isSome (hmark (by rw [htarget]; rfl) (by rw [htok]; simp))
    | some token =>
      have gone := pop_of_absent (htoken token htok)
      cases htarget : R.op.targetDevice with
      | none => exact gone
      | some name =>
        by_cases hsame : token = "_ran_on_device"
        · subst hsame
          show (R.result.setDefault "_ran_on_device" (.str name)).pop "_ran_on_device" = R.result
          rw [pop_setDefault]
          exact gone
        · have there := setDefault_of_isSome (v := .str name) (hmark (by rw [htarget]; rfl)
            (by rw [htok]; simpa using hsame))
          show (R.result.setDefault "_ran_on_device" (.str name)).pop token = R.result
          rw [there]
          exact gone

theorem pending_record : ∃ r ∈ R.log, r.opId = R.op.opId :=
  ⟨R.op.pending, by simp [log, started], rfl⟩

theorem log_pending : R.log.pending? R.op.opId =
    some (R.op.turnId, R.op.device, R.op.outcomeContract) := by
  have quiet : ∀ l : UndoLog, (∀ r ∈ l, r.opId ≠ R.op.opId) →
      l.filterMap (UndoRecord.starts R.op.opId) = [] := by
    intro l hl
    rw [List.filterMap_eq_nil_iff]
    intro r hr
    cases r with
    | pending op t d c => exact if_neg (hl _ hr)
    | _ => rfl
  have closing : (if R.recorded then
      [R.op.undoDone (timeoutObservation R.texts R.op R.invocationId)] else []).filterMap
        (UndoRecord.starts R.op.opId) = [] := by
    split
    · unfold Operation.undoDone completionRecord
      split <;> rfl
    · rfl
  unfold UndoLog.pending? log started
  rw [List.filterMap_append, List.filterMap_append, List.filterMap_append,
    quiet _ R.before_fresh, quiet _ R.later_fresh, closing]
  simp [Operation.pending, UndoRecord.starts]

theorem log_isUndone : R.log.isUndone R.op.opId = false := by
  unfold UndoLog.isUndone
  rw [List.any_eq_false]
  intro r hr
  have cases_ : r.opId ≠ R.op.opId ∨ r = R.op.pending ∨
      r = R.op.undoDone (timeoutObservation R.texts R.op R.invocationId) := by
    unfold log started at hr
    rcases List.mem_append.mp hr with hr | hr
    · rcases List.mem_append.mp hr with hr | hr
      · rcases List.mem_append.mp hr with hr | hr
        · exact .inl (R.before_fresh r hr)
        · exact .inr (.inl (List.mem_singleton.mp hr))
      · split at hr
        · exact .inr (.inr (List.mem_singleton.mp hr))
        · cases hr
    · exact .inl (R.later_fresh r hr)
  rcases cases_ with h | rfl | rfl
  · cases r with
    | undone op => simpa [UndoRecord.opId] using h
    | _ => simp
  · simp [Operation.pending]
  · unfold Operation.undoDone completionRecord
    cases executionUndoOutcome _ _ <;> simp

theorem log_openFor : R.log.openFor R.op.turnId R.op.device R.op.opId =
    if R.recorded then none else some R.op.outcomeContract := by
  unfold UndoLog.openFor
  rw [R.log_pending, R.log_isUndone, R.log_completion]
  cases R.recorded <;> simp

theorem after_inert (h : R.Inert) : R.after = R.log := by
  unfold after closeLateUndo
  rw [R.turn, R.executor]
  exact if_pos h

theorem after_completion (h : ¬R.Inert) (opId : String) : R.after.completion opId =
    (if opId ∈ R.log.opIds then
      (R.log.openFor R.op.turnId R.op.device opId).map (completionOf R.result)
    else none).or (R.log.completion opId) := by
  have hturn : R.op.turnId ≠ "" := fun e => h (.inl e)
  unfold after closeLateUndo
  rw [R.turn, R.executor, R.device,
    if_neg (id h : ¬(R.op.turnId = "" ∨ verb R.op.executor ∉ mutatingPrefixes))]
  exact completion_closePending hturn

theorem completionOf_closed {results : Fields} {contract : String} {outcome : UndoOutcome} :
    completionOf results contract = .closed outcome ↔
      (executionUndoOutcome results contract).closedAs = some outcome := by
  unfold completionOf
  cases (executionUndoOutcome results contract).closedAs <;> simp

theorem completionOf_eq {a b : Fields} {contract : String} :
    completionOf a contract = completionOf b contract ↔
      a = b ∨ ∃ outcome, (executionUndoOutcome a contract).closedAs = some outcome ∧
        (executionUndoOutcome b contract).closedAs = some outcome := by
  constructor
  · intro h
    cases ha : (executionUndoOutcome a contract).closedAs with
    | some outcome =>
      exact .inr ⟨outcome, rfl, completionOf_closed.mp (h ▸ completionOf_closed.mpr ha)⟩
    | none =>
      cases hb : (executionUndoOutcome b contract).closedAs with
      | some outcome =>
        rw [completionOf_closed.mp (h.trans (completionOf_closed.mpr hb))] at ha
        cases ha
      | none =>
        unfold completionOf at h
        rw [ha, hb] at h
        exact .inl (Completion.done.inj h)
  · rintro (rfl | ⟨outcome, ha, hb⟩)
    · rfl
    · rw [completionOf_closed.mpr ha, completionOf_closed.mpr hb]

theorem own_iff : R.after.completion R.op.opId =
    UndoLog.completion (R.started ++ timelyRecords R.texts R.op R.result) R.op.opId ↔
      R.OwnKept := by
  have mem : R.op.opId ∈ R.log.opIds := mem_opIds.mpr ⟨R.named, R.pending_record⟩
  have after : R.after.completion R.op.opId = if R.recorded then
      some (.closed (if R.op.outcomeContract = perExecutionOutcome then .irreversible
        else .noEffect))
      else if R.Inert then none else some (completionOf R.result R.op.outcomeContract) := by
    by_cases inert : R.Inert
    · rw [R.after_inert inert, R.log_completion, timeout_completion, if_pos inert]
    · rw [R.after_completion inert, if_pos mem, R.log_openFor, R.log_completion,
        timeout_completion, if_neg inert]
      cases R.recorded <;> rfl
  rw [after, R.timely_completion]
  unfold OwnKept
  cases hobs : observe R.texts R.result with
  | none =>
    cases R.recorded with
    | true => simp
    | false =>
      by_cases inert : R.Inert <;> simp [inert]
  | some observation =>
    simp only [Option.map_some]
    cases R.recorded with
    | true =>
      simp only [if_true, Option.some.injEq]
      rw [eq_comm, completionOf_closed]
      rfl
    | false =>
      simp only [Bool.false_eq_true, if_false]
      by_cases inert : R.Inert
      · simp [inert]
      · simp only [inert, if_false, Option.some.injEq, not_false_eq_true, true_and]
        rw [eq_comm, completionOf_eq, R.finish_eq_iff hobs]
        rfl

theorem others_iff : (∀ opId, opId ≠ R.op.opId →
    R.after.completion opId = R.log.completion opId) ↔ R.Alone := by
  unfold Alone
  by_cases inert : R.Inert
  · simp [inert, R.after_inert inert]
  · simp only [inert, false_or]
    refine forall_congr' fun opId => imp_congr_right fun hne => ?_
    rw [R.after_completion inert]
    constructor
    · intro h hnamed
      cases hopen : R.log.openFor R.op.turnId R.op.device opId with
      | none => rfl
      | some contract =>
        rw [if_pos (mem_opIds.mpr ⟨hnamed, openFor_mem hopen⟩), hopen,
          openFor_completion hopen] at h
        cases h
    · intro h
      split
      · rename_i hmem
        rw [h (mem_opIds.mp hmem).1]
        rfl
      · rfl

end LateResult

/-- A late success leaves the undo log as a timely one exactly when no other operation of the turn
on the device is open, and the operation itself is one of which the late path makes the same. -/
theorem late_undo_as_timely (R : LateResult) :
    (∃ db', recordResult R.db R.log R.dev R.verified R.result R.now = .ok (db', R.after)) ∧
    (R.AsTimely ↔ R.OwnKept ∧ R.Alone) :=
  ⟨R.records, and_congr R.own_iff R.others_iff⟩

/-! ### Two ways to lose the undo -/

def sampleRow : Row :=
  { invocationId := "inv-1", deviceId := "laptop",
    payload := .obj [("turn_id", .str "turn"), ("executor", .str "move_files")],
    state := .delivered, createdAt := 0, createdEpoch := 0, deliveredAt := some 1,
    deliveredEpoch := some 1, deadlineMs := 60000, completedAt := none, completedEpoch := none,
    resultJson := none, abandonedByTurn := true, dispatchKey := "", payloadDigest := "",
    ownerUserId := "owner", originActor := "", originChannel := "" }

/-- A move of one file that succeeded, reported after the turn gave up. -/
def sampleLate (recorded : Bool) (before : UndoLog)
    (fresh : ∀ r ∈ before ++ [], r.opId ≠ "op-1") : LateResult where
  texts := ⟨fun key => key, []⟩
  op := ⟨"op-1", "turn", "move_files", "laptop", "", none, some "Laptop"⟩
  invocationId := "inv-1"
  before := before
  recorded := recorded
  later := []
  db := ⟨[sampleRow], List.nodup_singleton _⟩
  row := sampleRow
  dev := some ⟨"owner", false, []⟩
  verified := true
  result := [("invocation_id", .str "inv-1"), ("device_id", .str "laptop"), ("ok", .bool true),
    ("payload", .obj [("ok", .bool true), ("results", .arr [.str "a.txt"])])]
  now := 100
  named := by decide
  fresh := fresh
  found := rfl
  open_ := ⟨by decide, by decide⟩
  late := .inl rfl
  executor := rfl
  turn := rfl
  own := rfl
  invocation := rfl
  device := rfl
  success := rfl
  accepted := ⟨rfl, rfl⟩

/-- The turn closed the operation when its wait was over, and it stays closed. -/
def closedEarly : LateResult := sampleLate true [] (by simp)

/-- The turn died, and one result closes two of its operations. -/
def diedWithTwo : LateResult :=
  sampleLate false [.pending "op-0" "turn" "laptop" ""] (by simp [UndoRecord.opId])

theorem late_undo_differs :
    ¬(∀ R : LateResult, R.AsTimely) ∧ ¬closedEarly.OwnKept ∧ ¬diedWithTwo.Alone := by
  have early : ¬closedEarly.OwnKept := by
    intro h
    cases (h : (none : Option UndoOutcome) = some .noEffect)
  refine ⟨fun h => early (closedEarly.own_iff.mp (h closedEarly).1), early, ?_⟩
  rintro (h | h)
  · exact absurd h (by decide)
  · exact absurd (h "op-0" (by decide) (by decide)) (by decide)

end Metnos.Invocations
