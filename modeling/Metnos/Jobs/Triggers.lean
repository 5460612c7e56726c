import Metnos.Lib.JsonText
import Metnos.Undo.Selection

/-!
# Jobs.Triggers — the grammar of triggers and their next instant

`schedule_parser.py`: a trigger is a time of the day, an interval, an instant, or an expression of
`croniter`.  Instants are whole milliseconds, as everywhere in the scheduler.  A zone is the table of
its transitions up to the last year of the calendar; a wall time that comes twice is taken at its
first occurrence, and one that is skipped by the offset before the gap.
-/

namespace Metnos.Jobs

abbrev Text := List Char

/-! ## Zones -/

def dayMs : ℤ := 86400000

/-- The first and the last day of the calendar, from the day of the epoch. -/
def minDay : ℤ := -719162
def maxDay : ℤ := 2932896

/-- The offset before the first transition, and for each transition its instant and the offset from
then on. -/
structure Zone where
  first : ℤ
  transitions : List (ℤ × ℤ)

def offsetAt : ℤ → List (ℤ × ℤ) → ℤ → ℤ
  | o, [], _ => o
  | o, (i, o') :: rest, t => if i ≤ t then offsetAt o' rest t else o

/-- The offset of a wall time with `fold=0`. -/
def wallOffset : ℤ → List (ℤ × ℤ) → ℤ → ℤ
  | o, [], _ => o
  | o, (i, o') :: rest, wall => if i + max o o' ≤ wall then wallOffset o' rest wall else o

namespace Zone

def inCalendar (ms : ℤ) : Bool := decide (minDay ≤ ms / dayMs) && decide (ms / dayMs ≤ maxDay)

/-- `datetime.fromtimestamp(t, tz)`, as the milliseconds of the wall time; none where it raises. -/
def fromTimestamp (z : Zone) (t : ℤ) : Option ℤ :=
  let wall := t + offsetAt z.first z.transitions t
  if inCalendar t && inCalendar wall then some wall else none

/-- `timestamp()` of a wall time. -/
def timestamp (z : Zone) (wall : ℤ) : ℤ := wall - wallOffset z.first z.transitions wall

/-- `_build`: the time of the day, on a day. -/
def build (z : Zone) (day : ℤ) (hh mm : ℕ) : ℤ :=
  z.timestamp (day * dayMs + (hh * 3600000 + mm * 60000 : ℕ))

end Zone

/-! ## Triggers -/

/-- What the parser gets from Python and from what is installed. -/
structure Python where
  /-- The value of a decimal digit that is not ASCII. -/
  otherDecimal : Char → Option (Fin 10)
  /-- The instant of `datetime.fromisoformat(iso)`, in UTC if it names no zone, or the error. -/
  isoEpoch : Text → Except String ℤ
  /-- `repr(s)` -/
  repr : Text → String
  /-- `ZoneInfo(tz_name)`, none where it raises. -/
  zone : String → Option Zone
  /-- `croniter(expr, base).get_next(datetime)`, if the package is installed. -/
  croniter : Option (Text → String → ℤ → Option ℤ)

inductive Trigger
  | daily (hh mm : ℕ)
  | every (seconds : ℕ)
  | at (epoch : ℤ)
  | cron (expr : Text)

/-- What stands before a dollar sign of a pattern: a newline at the end is left out. -/
def beforeEnd (t : Text) : Text :=
  if t.getLast? = some '\n' then t.dropLast else t

section
variable (py : Python)

/-- A character that `\d` matches. -/
def decimal (c : Char) : Option ℕ :=
  if '0' ≤ c ∧ c ≤ '9' then some (c.toNat - '0'.toNat) else (py.otherDecimal c).map Fin.val

/-- `int` of a run of digits. -/
def intOf (digits : List ℕ) : ℕ := digits.foldl (fun n d => 10 * n + d) 0

/-- `_DAILY_RE` -/
def matchDaily (t : Text) : Option (ℕ × ℕ) :=
  match t with
  | 'd' :: 'a' :: 'i' :: 'l' :: 'y' :: '@' :: rest =>
    match beforeEnd rest with
    | [a, b, ':', c, d] => do
      let ones ← decimal py b
      let minutes ← decimal py d
      if c < '0' ∨ '5' < c then none
      else if a = '0' ∨ a = '1' ∨ (a = '2' ∧ '0' ≤ b ∧ b ≤ '3') then
        some (10 * (a.toNat - '0'.toNat) + ones, 10 * (c.toNat - '0'.toNat) + minutes)
      else none
    | _ => none
  | _ => none

/-- The digits at the start and what follows them. -/
def spanDecimal : Text → List ℕ × Text
  | [] => ([], [])
  | c :: t =>
    match decimal py c with
    | some d => (d :: (spanDecimal t).1, (spanDecimal t).2)
    | none => ([], c :: t)

/-- `_EVERY_RE`: the digits, and the seconds of the unit. -/
def matchEvery (t : Text) : Option (List ℕ × ℕ) :=
  match t with
  | 'e' :: 'v' :: 'e' :: 'r' :: 'y' :: '_' :: rest =>
    match spanDecimal py (beforeEnd rest) with
    | ([], _) => none
    | (digits, ['s']) => some (digits, 1)
    | (digits, ['m']) => some (digits, 60)
    | (digits, ['h']) => some (digits, 3600)
    | _ => none
  | _ => none

/-- `(.+)$`: one line. -/
def lineOf (t : Text) : Option Text :=
  let line := beforeEnd t
  if line = [] ∨ '\n' ∈ line then none else some line

/-- `_AT_RE` -/
def matchAt : Text → Option Text
  | 'a' :: 't' :: ':' :: rest => lineOf rest
  | _ => none

/-- `_CRON_RE` -/
def matchCron : Text → Option Text
  | 'c' :: 'r' :: 'o' :: 'n' :: ':' :: rest => lineOf rest
  | _ => none

/-- `raw.replace("Z", "+00:00")` -/
def isoText (raw : Text) : Text :=
  raw.flatMap fun c => if c = 'Z' then "+00:00".toList else [c]

/-- `len(expr.split())` -/
def fieldCount (expr : Text) : ℕ := ((expr.splitOnP Undo.isSpace).filter fun f => f ≠ []).length

/-- `parse_trigger`, with the texts of its errors. -/
def parseTrigger (trigger : String) : Except String Trigger :=
  let t := trigger.toList
  if t = [] then .error "empty trigger"
  else match matchDaily py t with
  | some (hh, mm) => .ok (.daily hh mm)
  | none => match matchEvery py t with
  | some (digits, unit) =>
    if Json.maxDigits < digits.length then
      .error ("Exceeds the limit (4300 digits) for integer string conversion: value has " ++
        toString digits.length ++
        " digits; use sys.set_int_max_str_digits() to increase the limit")
    else if intOf digits = 0 then .error ("every_ must be positive: " ++ trigger)
    else .ok (.every (unit * intOf digits))
  | none => match matchAt t with
  | some raw =>
    match py.isoEpoch (isoText raw) with
    | .ok epoch => .ok (.at epoch)
    | .error exc => .error ("at: malformed ISO8601 " ++ py.repr raw ++ ": " ++ exc)
  | none => match matchCron t with
  | some raw =>
    let expr := Undo.strip raw
    if fieldCount expr = 5 then .ok (.cron expr)
    else .error ("cron expression must have 5 fields: " ++ py.repr expr)
  | none => .error ("unknown trigger form: " ++ py.repr t)

/-! ## The next instant -/

/-- `_next_daily`; there is no day after the last one. -/
def nextDaily (z : Zone) (after : ℤ) (hh mm : ℕ) : Option ℤ :=
  match z.fromTimestamp after with
  | none => none
  | some wall =>
    let today := wall / dayMs
    if z.build today hh mm ≤ after then
      if today + 1 ≤ maxDay then some (z.build (today + 1) hh mm) else none
    else some (z.build today hh mm)

/-- `_next_every` -/
def nextEvery (after : ℤ) (seconds : ℕ) : ℤ := after + 1000 * seconds

/-- `_next_cron` -/
def nextCron (after : ℤ) (expr : Text) (tzName : String) : Option ℤ :=
  match py.croniter with
  | none => none
  | some getNext =>
    match py.zone tzName with
    | none => none
    | some z => if (z.fromTimestamp after).isNone then none else getNext expr tzName after

/-- `next_fire_at`, none where it raises. -/
def nextFireAt (trigger tzName : String) (after : ℤ) : Option ℤ :=
  match parseTrigger py trigger with
  | .error _ => none
  | .ok (.daily hh mm) =>
    match py.zone tzName with
    | none => none
    | some z => nextDaily z after hh mm
  | .ok (.every seconds) => some (nextEvery after seconds)
  | .ok (.at epoch) => some epoch
  | .ok (.cron expr) => nextCron py after expr tzName

end

/-! ## What comes next -/

/-- The trigger has a next instant after `t`: an instant that is not past, or a time of the day that
comes later on this wall date, or first comes on the following one. -/
def Advances (py : Python) (trigger tzName : String) (t : ℤ) : Prop :=
  match parseTrigger py trigger with
  | .error _ => False
  | .ok (.daily hh mm) => ∃ z wall, py.zone tzName = some z ∧ z.fromTimestamp t = some wall ∧
      (t < z.build (wall / dayMs) hh mm ∨
        wall / dayMs + 1 ≤ maxDay ∧ t < z.build (wall / dayMs + 1) hh mm)
  | .ok (.every _) => True
  | .ok (.at epoch) => t < epoch
  | .ok (.cron expr) => ∃ getNext z wall next, py.croniter = some getNext ∧
      py.zone tzName = some z ∧ z.fromTimestamp t = some wall ∧
      getNext expr tzName t = some next ∧ t < next

theorem nextDaily_later_iff {z : Zone} {t : ℤ} {hh mm : ℕ} :
    (∃ next, nextDaily z t hh mm = some next ∧ t < next) ↔
      ∃ wall, z.fromTimestamp t = some wall ∧
        (t < z.build (wall / dayMs) hh mm ∨
          wall / dayMs + 1 ≤ maxDay ∧ t < z.build (wall / dayMs + 1) hh mm) := by
  unfold nextDaily
  cases hwall : z.fromTimestamp t with
  | none =>
    constructor
    · rintro ⟨next, h, -⟩
      cases h
    · rintro ⟨wall, h, -⟩
      cases h
  | some wall =>
    dsimp only
    constructor
    · rintro ⟨next, h, later⟩
      refine ⟨wall, rfl, ?_⟩
      split at h
      · split at h
        · rename_i _ room
          exact .inr ⟨room, Option.some.inj h ▸ later⟩
        · cases h
      · exact .inl (Option.some.inj h ▸ later)
    · rintro ⟨wall', same, later⟩
      obtain rfl := Option.some.inj same
      by_cases passed : z.build (wall / dayMs) hh mm ≤ t
      · obtain ⟨room, later⟩ := later.resolve_left (by omega)
        exact ⟨_, by rw [if_pos passed, if_pos room], later⟩
      · exact ⟨_, by rw [if_neg passed], by omega⟩

theorem nextCron_later_iff {py : Python} {t : ℤ} {expr : Text} {tzName : String} :
    (∃ next, nextCron py t expr tzName = some next ∧ t < next) ↔
      ∃ getNext z wall next, py.croniter = some getNext ∧ py.zone tzName = some z ∧
        z.fromTimestamp t = some wall ∧ getNext expr tzName t = some next ∧ t < next := by
  unfold nextCron
  constructor
  · rintro ⟨next, h, later⟩
    cases hcron : py.croniter with
    | none =>
      rw [hcron] at h
      cases h
    | some getNext =>
      cases hzone : py.zone tzName with
      | none =>
        rw [hcron, hzone] at h
        cases h
      | some z =>
        rw [hcron, hzone] at h
        replace h : (if (z.fromTimestamp t).isNone then none else getNext expr tzName t) =
          some next := h
        cases hwall : z.fromTimestamp t with
        | none =>
          rw [hwall] at h
          cases h
        | some wall =>
          rw [hwall] at h
          exact ⟨getNext, z, wall, next, rfl, rfl, hwall, h, later⟩
  · rintro ⟨getNext, z, wall, next, hcron, hzone, hwall, h, later⟩
    refine ⟨next, ?_, later⟩
    rw [hcron, hzone]
    show (if (z.fromTimestamp t).isNone then none else getNext expr tzName t) = some next
    rw [hwall]
    exact h

theorem unit_pos {py : Python} {t : Text} {digits : List ℕ} {unit : ℕ}
    (h : matchEvery py t = some (digits, unit)) : 0 < unit := by
  unfold matchEvery at h
  split at h
  · split at h
    · cases h
    · cases h
      omega
    · cases h
      omega
    · cases h
      omega
    · cases h
  · cases h

theorem every_pos {py : Python} {trigger : String} {seconds : ℕ}
    (h : parseTrigger py trigger = .ok (.every seconds)) : 0 < seconds := by
  unfold parseTrigger at h
  dsimp only at h
  split at h
  · cases h
  · split at h
    · cases h
    · split at h
      · rename_i digits unit hmatch
        split at h
        · cases h
        · split at h
          · cases h
          · rename_i nonzero
            cases h
            exact Nat.mul_pos (unit_pos hmatch) (Nat.pos_of_ne_zero nonzero)
      · split at h
        · split at h
          · cases h
          · cases h
        · split at h
          · split at h
            · cases h
            · cases h
          · cases h

theorem nextFireAt_later_iff (py : Python) (trigger tzName : String) (t : ℤ) :
    (∃ next, nextFireAt py trigger tzName t = some next ∧ t < next) ↔
      Advances py trigger tzName t := by
  unfold nextFireAt Advances
  cases hparse : parseTrigger py trigger with
  | error e =>
    refine ⟨?_, False.elim⟩
    rintro ⟨next, h, -⟩
    cases h
  | ok parsed =>
    cases parsed with
    | daily hh mm =>
      dsimp only
      cases hzone : py.zone tzName with
      | none =>
        constructor
        · rintro ⟨next, h, -⟩
          cases h
        · rintro ⟨z, wall, h, -⟩
          cases h
      | some z =>
        rw [nextDaily_later_iff]
        constructor
        · rintro ⟨wall, h⟩
          exact ⟨z, wall, rfl, h⟩
        · rintro ⟨z', wall, same, h⟩
          obtain rfl := Option.some.inj same
          exact ⟨wall, h⟩
    | every seconds =>
      refine ⟨fun _ => trivial, fun _ => ⟨_, rfl, ?_⟩⟩
      have pos := every_pos hparse
      unfold nextEvery
      omega
    | «at» epoch =>
      constructor
      · rintro ⟨next, h, later⟩
        exact Option.some.inj h ▸ later
      · exact fun later => ⟨epoch, rfl, later⟩
    | cron expr => exact nextCron_later_iff

/-! ## Zones that show every midnight once -/

/-- Where the clock goes back it stays on the date that it last showed. -/
def MidnightsOnce : ℤ → List (ℤ × ℤ) → Prop
  | _, [] => True
  | o, (i, o') :: rest =>
    (i + o - 1) / dayMs ≤ (i + o') / dayMs ∧ (∀ p ∈ rest, i < p.1) ∧ MidnightsOnce o' rest

section
variable {o i t wall : ℤ} {rest : List (ℤ × ℤ)}

theorem date_after (h : MidnightsOnce o rest) (later : ∀ p ∈ rest, i < p.1) (ht : i ≤ t) :
    (i + o) / dayMs ≤ (t + offsetAt o rest t) / dayMs := by
  induction rest generalizing o i with
  | nil =>
    unfold offsetAt dayMs
    omega
  | cons p rest ih =>
    obtain ⟨j, o'⟩ := p
    obtain ⟨back, order, rest_⟩ := h
    have hj : i < j := later (j, o') List.mem_cons_self
    unfold offsetAt
    by_cases reached : j ≤ t
    · rw [if_pos reached]
      have after := ih rest_ order reached
      have before : (i + o) / dayMs ≤ (j + o - 1) / dayMs := by
        unfold dayMs
        omega
      omega
    · rw [if_neg reached]
      unfold dayMs
      omega

theorem timestamp_after (later : ∀ p ∈ rest, i < p.1) (order : MidnightsOnce o rest)
    (h : i + o ≤ wall) : i ≤ wall - wallOffset o rest wall := by
  induction rest generalizing o i with
  | nil =>
    unfold wallOffset
    omega
  | cons p rest ih =>
    obtain ⟨j, o'⟩ := p
    have hj : i < j := later (j, o') List.mem_cons_self
    unfold wallOffset
    by_cases reached : j + max o o' ≤ wall
    · rw [if_pos reached]
      have := ih order.2.1 order.2.2 (by omega)
      omega
    · rw [if_neg reached]
      omega

theorem timestamp_of_later_date (h : MidnightsOnce o rest)
    (date : (t + offsetAt o rest t) / dayMs < wall / dayMs) :
    t < wall - wallOffset o rest wall := by
  induction rest generalizing o with
  | nil =>
    unfold offsetAt dayMs at date
    unfold wallOffset
    omega
  | cons p rest ih =>
    obtain ⟨i, o'⟩ := p
    obtain ⟨back, order, rest_⟩ := h
    unfold offsetAt at date
    unfold wallOffset
    by_cases passed : i ≤ t
    · rw [if_pos passed] at date
      by_cases reached : i + max o o' ≤ wall
      · rw [if_pos reached]
        exact ih rest_ date
      · -- the wall time was shown before the transition, so that its date is not a later one
        exfalso
        have after := date_after rest_ order passed
        have shown : wall / dayMs ≤ (i + o') / dayMs := by
          rcases Int.le_total o o' with forward | backward
          · unfold dayMs
            omega
          · have : wall / dayMs ≤ (i + o - 1) / dayMs := by
              unfold dayMs
              omega
            omega
        omega
    · rw [if_neg passed] at date
      by_cases reached : i + max o o' ≤ wall
      · rw [if_pos reached]
        have := timestamp_after order rest_ (show i + o' ≤ wall by omega)
        omega
      · rw [if_neg reached]
        unfold dayMs at date
        omega

end

/-- In a zone that shows every midnight once a time of the day always comes again, up to the last day
of the calendar. -/
theorem daily_advances {py : Python} {trigger tzName : String} {hh mm : ℕ} {z : Zone} {t wall : ℤ}
    (parsed : parseTrigger py trigger = .ok (.daily hh mm)) (zone : py.zone tzName = some z)
    (once : MidnightsOnce z.first z.transitions) (shown : z.fromTimestamp t = some wall)
    (room : wall / dayMs + 1 ≤ maxDay) : Advances py trigger tzName t := by
  unfold Advances
  rw [parsed]
  refine ⟨z, wall, zone, shown, .inr ⟨room, timestamp_of_later_date once ?_⟩⟩
  unfold Zone.fromTimestamp at shown
  dsimp only at shown
  rw [Option.ite_none_right_eq_some] at shown
  have hwall := Option.some.inj shown.2
  rw [hwall]
  unfold dayMs
  omega

/-- An hour ahead of UTC, and two hours in the summer of 2026. -/
def summerZone : Zone := ⟨3600000, [(1774746000000, 7200000), (1792890000000, 3600000)]⟩

def summerPython : Python :=
  ⟨fun _ => none, fun _ => .error "", String.ofList, fun _ => some summerZone, none⟩

/-- In the night whose hour after two is left out. -/
theorem daily_advances_skipped :
    Advances summerPython "daily@02:30" "Europe/Rome" 1774742400000 := by
  have parsed : parseTrigger summerPython "daily@02:30" = .ok (.daily 2 30) := by rfl
  exact daily_advances parsed (show summerPython.zone "Europe/Rome" = some summerZone from rfl)
    (by simp [MidnightsOnce, summerZone, dayMs]) (show _ = some 1774746000000 by decide +kernel)
    (by decide +kernel)

end Metnos.Jobs
