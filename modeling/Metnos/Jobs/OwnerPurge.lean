import Metnos.Jobs.Daemon
import Metnos.Lib.JsonText
import Metnos.Lib.Texts
import Metnos.Lib.Transaction
import Metnos.Undo.Selection

/-!
# Jobs.OwnerPurge — the entries and runs of one owner

`purge_owner` first collects names: the hinted ones, those of the entries of users with the prefix of
the owner or with the owner in their payload, and those of the runs that a pattern with the prefix
matches.  Then it deletes every entry and every run with one of the names.  The limits of a build of
the database, such as the number of parameters of a statement, are left out.
-/

namespace Metnos.Jobs

open Dynamic

/-- A row of `schedule_entries`; `columns` are those that the purge does not read. -/
structure EntryRow (γ : Type) where
  id : ℕ
  name : String
  origin : String
  payload : String
  columns : γ

/-- Both tables, with `name TEXT UNIQUE`. -/
structure OwnedTables (γ : Type) where
  entries : Table (EntryRow γ) ℕ EntryRow.id
  runs : Table Run ℕ Run.id
  unique : (entries.rows.map EntryRow.name).Nodup

/-- `json.loads(row["payload"] or "\x7b\x7d")`; what cannot be read is an empty dict. -/
def payloadOf (text : String) : Json :=
  (Json.loads (if text = "" then "\x7b\x7d" else text).toList).getD (.obj [])

/-- `str(payload.get("owner_user_id") or "")`, by the `str` of a value; what is no dict has no
`get`. -/
def payloadOwner (str : Json → String) (text : String) : Option String :=
  (asDict (payloadOf text)).map fun payload =>
    if (payload.get "owner_user_id").truthy then str (payload.get "owner_user_id") else ""

/-- `name.startswith(name_prefix)` -/
def startsWith (name namePrefix : String) : Bool := namePrefix.toList.isPrefixOf name.toList

/-- `entry_name LIKE ?` with the prefix and a percent sign. -/
def matchesPrefix (namePrefix entryName : String) : Bool :=
  SqlLike.like (namePrefix.toList ++ ['%']) entryName.toList

section
variable {γ : Type} (str : Json → String) (owner namePrefix : String)

/-- The names that the loop over the entries of the users collects. -/
def userNames : List (EntryRow γ) → Except Unit (List String)
  | [] => .ok []
  | e :: rest =>
    if e.origin ≠ "user" then userNames rest
    else if startsWith e.name namePrefix then do
      let names ← userNames rest
      return e.name :: names
    else match payloadOwner str e.payload with
      | none => .error ()
      | some found => do
        let names ← userNames rest
        return if found = owner then e.name :: names else names

/-- The names of the runs that the pattern matches. -/
def runNames (runs : List Run) : List String :=
  (runs.filter fun r => matchesPrefix namePrefix r.entryName).map Run.entryName

end

/-- The counts that a purge returns. -/
structure Purged where
  entries : ℕ
  runs : ℕ

def OwnedTables.deleteNamed {γ : Type} (T : OwnedTables γ) (names : List String) :
    Purged × OwnedTables γ :=
  (⟨T.entries.count fun e => e.name ∈ names, T.runs.count fun r => r.entryName ∈ names⟩,
    { entries := T.entries.keep fun e => e.name ∉ names
      runs := T.runs.keep fun r => r.entryName ∉ names
      unique := T.unique.sublist (List.filter_sublist.map EntryRow.name) })

/-- `purge_owner`; an error leaves both tables as they are. -/
def purgeOwner {γ : Type} (str : Json → String) (T : OwnedTables γ) (ownerUserId namePrefix : String)
    (hintedNames : List String) : Except Unit (Purged × OwnedTables γ) :=
  let owner := String.ofList (Undo.strip ownerUserId.toList)
  if owner = "" || namePrefix = "" then .ok (⟨0, 0⟩, T)
  else do
    let found ← userNames str owner namePrefix T.entries.rows
    let names := hintedNames.filter (fun name => name ≠ "") ++ found ++
      runNames namePrefix T.runs.rows
    if names = [] then return (⟨0, 0⟩, T)
    return T.deleteNamed names

/-! ## What belongs to the owner -/

section
variable {γ : Type} (str : Json → String) (owner namePrefix : String) (hintedNames : List String)

/-- An entry of a user with the literal prefix, or with the owner in its payload. -/
def Attributed (e : EntryRow γ) : Prop :=
  e.origin = "user" ∧
    (startsWith e.name namePrefix = true ∨ payloadOwner str e.payload = some owner)

def Hinted (name : String) : Prop := name ∈ hintedNames ∧ name ≠ ""

/-- A name that an entry of the owner has, or that was hinted. -/
def OwnName (T : OwnedTables γ) (name : String) : Prop :=
  Hinted hintedNames name ∨ ∃ e ∈ T.entries.rows, Attributed str owner namePrefix e ∧ e.name = name

/-- The purge of the owner completes, and deletes these entries and runs and no others. -/
def PurgesExactly (T : OwnedTables γ) (ownerUserId : String) : Prop :=
  let owner := String.ofList (Undo.strip ownerUserId.toList)
  ∃ counts T', purgeOwner str T ownerUserId namePrefix hintedNames = .ok (counts, T') ∧
    (∀ e, e ∈ T'.entries.rows ↔ e ∈ T.entries.rows ∧
      ¬(Attributed str owner namePrefix e ∨ Hinted hintedNames e.name)) ∧
    ∀ r, r ∈ T'.runs.rows ↔ r ∈ T.runs.rows ∧
      ¬(OwnName str owner namePrefix hintedNames T r.entryName ∨
        startsWith r.entryName namePrefix = true)

/-- The entries of users without the prefix have a payload that is a dict or unreadable; and where
the pattern matches a run, the run has the literal prefix or a name of the owner, and an entry with
its name is the owner's or hinted. -/
structure Separated (T : OwnedTables γ) : Prop where
  readable : ∀ e ∈ T.entries.rows, e.origin = "user" → startsWith e.name namePrefix = false →
    (payloadOwner str e.payload).isSome
  runs : ∀ r ∈ T.runs.rows, matchesPrefix namePrefix r.entryName = true →
    startsWith r.entryName namePrefix = true ∨ OwnName str owner namePrefix hintedNames T r.entryName
  entries : ∀ r ∈ T.runs.rows, matchesPrefix namePrefix r.entryName = true →
    ∀ e ∈ T.entries.rows, e.name = r.entryName →
      Attributed str owner namePrefix e ∨ Hinted hintedNames e.name

end

/-! ## The names that are collected -/

section
variable {γ : Type} {str : Json → String} {owner namePrefix : String}

theorem userNames_ok {entries : List (EntryRow γ)}
    (readable : ∀ e ∈ entries, e.origin = "user" → startsWith e.name namePrefix = false →
      (payloadOwner str e.payload).isSome) :
    ∃ names, userNames str owner namePrefix entries = .ok names := by
  induction entries with
  | nil => exact ⟨[], rfl⟩
  | cons e rest ih =>
    obtain ⟨names, hnames⟩ := ih fun e he => readable e (List.mem_cons_of_mem _ he)
    unfold userNames
    by_cases user : e.origin = "user"
    · rw [if_neg (not_not.mpr user), hnames]
      by_cases start : startsWith e.name namePrefix = true
      · exact ⟨e.name :: names, if_pos start⟩
      · rw [if_neg start]
        have some_ := readable e List.mem_cons_self user (Bool.not_eq_true _ ▸ start)
        obtain ⟨found, hfound⟩ := Option.isSome_iff_exists.mp some_
        rw [hfound]
        exact ⟨_, rfl⟩
    · exact ⟨names, by rw [if_pos user, hnames]⟩

theorem userNames_spec {entries : List (EntryRow γ)} {names : List String}
    (h : userNames str owner namePrefix entries = .ok names) :
    (∀ e ∈ entries, e.origin = "user" → startsWith e.name namePrefix = false →
      (payloadOwner str e.payload).isSome) ∧
    ∀ name, name ∈ names ↔
      ∃ e ∈ entries, Attributed str owner namePrefix e ∧ e.name = name := by
  induction entries generalizing names with
  | nil =>
    cases h
    exact ⟨fun e he => (by cases he), fun name => by simp⟩
  | cons e rest ih =>
    unfold userNames at h
    by_cases user : e.origin = "user"
    · rw [if_neg (not_not.mpr user)] at h
      by_cases start : startsWith e.name namePrefix = true
      · rw [if_pos start, Transaction.bind_eq_ok] at h
        obtain ⟨others, hothers, same⟩ := h
        obtain ⟨readable, spec⟩ := ih hothers
        obtain rfl := Transaction.pure_eq_ok.mp same
        refine ⟨fun e' he' => ?_, fun name => ?_⟩
        · rcases List.mem_cons.mp he' with rfl | he'
          · intro _ differs
            rw [start] at differs
            cases differs
          · exact readable e' he'
        · rw [List.mem_cons, spec, List.exists_mem_cons_iff]
          have own : Attributed str owner namePrefix e := ⟨user, .inl start⟩
          simp only [own, true_and, eq_comm]
      · rw [if_neg start] at h
        cases hfound : payloadOwner str e.payload with
        | none =>
          rw [hfound] at h
          cases h
        | some found =>
          rw [hfound] at h
          obtain ⟨others, hothers, same⟩ := Transaction.bind_eq_ok.mp h
          obtain ⟨readable, spec⟩ := ih hothers
          have own : Attributed str owner namePrefix e ↔ found = owner := by
            unfold Attributed
            rw [hfound, Option.some.injEq]
            exact ⟨fun h => h.2.resolve_left start, fun h => ⟨user, .inr h⟩⟩
          refine ⟨fun e' he' => ?_, fun name => ?_⟩
          · rcases List.mem_cons.mp he' with rfl | he'
            · intro _ _
              rw [hfound]
              rfl
            · exact readable e' he'
          · rw [← Transaction.pure_eq_ok.mp same, List.exists_mem_cons_iff, own]
            by_cases is : found = owner
            · rw [if_pos is, List.mem_cons, spec]
              simp only [is, true_and, eq_comm]
            · rw [if_neg is, spec]
              simp only [is, false_and, false_or]
    · rw [if_pos user] at h
      obtain ⟨readable, spec⟩ := ih h
      refine ⟨fun e' he' => ?_, fun name => ?_⟩
      · rcases List.mem_cons.mp he' with rfl | he'
        · exact fun is => absurd is user
        · exact readable e' he'
      · rw [spec, List.exists_mem_cons_iff]
        have other : ¬Attributed str owner namePrefix e := fun own => user own.1
        simp only [other, false_and, false_or]

theorem mem_runNames {runs : List Run} {name : String} :
    name ∈ runNames namePrefix runs ↔
      ∃ r ∈ runs, matchesPrefix namePrefix r.entryName = true ∧ r.entryName = name := by
  unfold runNames
  rw [List.mem_map]
  simp only [List.mem_filter, and_assoc]

theorem matchesPrefix_of_startsWith {name : String} (h : startsWith name namePrefix = true) :
    matchesPrefix namePrefix name = true :=
  SqlLike.like_of_prefix (List.isPrefixOf_iff_prefix.mp h)

end

theorem mem_deleteNamed {γ : Type} (T : OwnedTables γ) (names : List String) :
    (∀ e, e ∈ (T.deleteNamed names).2.entries.rows ↔ e ∈ T.entries.rows ∧ e.name ∉ names) ∧
    ∀ r, r ∈ (T.deleteNamed names).2.runs.rows ↔ r ∈ T.runs.rows ∧ r.entryName ∉ names := by
  constructor
  · intro e
    show e ∈ T.entries.rows.filter _ ↔ _
    rw [List.mem_filter, decide_eq_true_eq]
  · intro r
    show r ∈ T.runs.rows.filter _ ↔ _
    rw [List.mem_filter, decide_eq_true_eq]

theorem purgeOwner_ok {γ : Type} {str : Json → String} {T T' : OwnedTables γ}
    {ownerUserId namePrefix : String} {hintedNames : List String} {counts : Purged}
    (owned : String.ofList (Undo.strip ownerUserId.toList) ≠ "") (named : namePrefix ≠ "")
    (h : purgeOwner str T ownerUserId namePrefix hintedNames = .ok (counts, T')) :
    ∃ found, userNames str (String.ofList (Undo.strip ownerUserId.toList)) namePrefix
        T.entries.rows = .ok found ∧
      let names := hintedNames.filter (fun name => name ≠ "") ++ found ++
        runNames namePrefix T.runs.rows
      (∀ e, e ∈ T'.entries.rows ↔ e ∈ T.entries.rows ∧ e.name ∉ names) ∧
      ∀ r, r ∈ T'.runs.rows ↔ r ∈ T.runs.rows ∧ r.entryName ∉ names := by
  unfold purgeOwner at h
  dsimp only at h
  rw [if_neg (by simp [owned, named]), Transaction.bind_eq_ok] at h
  obtain ⟨found, hfound, h⟩ := h
  refine ⟨found, hfound, ?_⟩
  dsimp only
  generalize hintedNames.filter (fun name => name ≠ "") ++ found ++
    runNames namePrefix T.runs.rows = names at h ⊢
  by_cases empty : names = []
  · rw [if_pos empty] at h
    obtain ⟨-, rfl⟩ := Prod.mk.inj (Transaction.pure_eq_ok.mp h)
    rw [empty]
    simp
  · rw [if_neg empty] at h
    have same := Prod.ext_iff.mp (Transaction.pure_eq_ok.mp h)
    have table : (T.deleteNamed names).2 = T' := same.2
    rw [← table]
    exact mem_deleteNamed T names

/-! ## The rows that go -/

section
variable {γ : Type} {str : Json → String} {owner namePrefix : String} {hintedNames : List String}

theorem mem_names {T : OwnedTables γ} {found : List String}
    (hfound : userNames str owner namePrefix T.entries.rows = .ok found) (name : String) :
    name ∈ hintedNames.filter (fun name => name ≠ "") ++ found ++ runNames namePrefix T.runs.rows ↔
      OwnName str owner namePrefix hintedNames T name ∨
        ∃ r ∈ T.runs.rows, matchesPrefix namePrefix r.entryName = true ∧ r.entryName = name := by
  rw [List.mem_append, List.mem_append, List.mem_filter, decide_eq_true_eq,
    (userNames_spec hfound).2, mem_runNames]
  rfl

theorem ownName_of_mem {T : OwnedTables γ} {e : EntryRow γ} (he : e ∈ T.entries.rows) :
    OwnName str owner namePrefix hintedNames T e.name ↔
      Attributed str owner namePrefix e ∨ Hinted hintedNames e.name := by
  constructor
  · rintro (hinted | ⟨e', he', own, same⟩)
    · exact .inr hinted
    · rw [List.inj_on_of_nodup_map T.unique he' he same] at own
      exact .inl own
  · rintro (own | hinted)
    · exact .inr ⟨e, he, own, rfl⟩
    · exact .inl hinted

theorem PurgesExactly.separated {T : OwnedTables γ} {ownerUserId : String}
    (owned : String.ofList (Undo.strip ownerUserId.toList) ≠ "") (named : namePrefix ≠ "")
    (h : PurgesExactly str namePrefix hintedNames T ownerUserId) :
    Separated str (String.ofList (Undo.strip ownerUserId.toList)) namePrefix hintedNames T := by
  obtain ⟨counts, T', purged, entries, runs⟩ := h
  obtain ⟨found, hfound, gone, goneRuns⟩ := purgeOwner_ok owned named purged
  refine ⟨(userNames_spec hfound).1, fun r hr hmatch => ?_, fun r hr hmatch e he same => ?_⟩
  · have deleted : r ∉ T'.runs.rows := fun kept =>
      ((goneRuns r).mp kept).2 ((mem_names hfound _).mpr (.inr ⟨r, hr, hmatch, rfl⟩))
    rw [runs r, not_and, not_not] at deleted
    exact (deleted hr).symm
  · have deleted : e ∉ T'.entries.rows := fun kept =>
      ((gone e).mp kept).2 ((mem_names hfound _).mpr (.inr ⟨r, hr, hmatch, same.symm⟩))
    rw [entries e, not_and, not_not] at deleted
    exact deleted he

theorem Separated.purgesExactly {T : OwnedTables γ} {ownerUserId : String}
    (owned : String.ofList (Undo.strip ownerUserId.toList) ≠ "") (named : namePrefix ≠ "")
    (h : Separated str (String.ofList (Undo.strip ownerUserId.toList)) namePrefix hintedNames T) :
    PurgesExactly str namePrefix hintedNames T ownerUserId := by
  obtain ⟨found, hfound⟩ := userNames_ok h.readable
  obtain ⟨counts, T', purged⟩ : ∃ counts T',
      purgeOwner str T ownerUserId namePrefix hintedNames = .ok (counts, T') := by
    unfold purgeOwner
    dsimp only
    rw [if_neg (by simp [owned, named]), hfound]
    by_cases empty : hintedNames.filter (fun name => name ≠ "") ++ found ++
        runNames namePrefix T.runs.rows = []
    · exact ⟨_, _, if_pos empty⟩
    · exact ⟨_, _, if_neg empty⟩
  obtain ⟨found', hfound', gone, goneRuns⟩ := purgeOwner_ok owned named purged
  obtain rfl : found = found' := Except.ok.inj (hfound.symm.trans hfound')
  refine ⟨counts, T', purged, fun e => ?_, fun r => ?_⟩
  · rw [gone e]
    refine and_congr_right fun he => not_congr ?_
    rw [mem_names hfound, ← ownName_of_mem he]
    constructor
    · rintro (own | ⟨r, hr, hmatch, same⟩)
      · exact own
      · exact (ownName_of_mem he).mpr (h.entries r hr hmatch e he same.symm)
    · exact fun own => .inl own
  · rw [goneRuns r]
    refine and_congr_right fun hr => not_congr ?_
    rw [mem_names hfound]
    constructor
    · rintro (own | ⟨r', hr', hmatch, same⟩)
      · exact .inl own
      · rw [same] at hmatch
        exact (h.runs r hr hmatch).symm
    · rintro (own | start)
      · exact .inl own
      · exact .inr ⟨r, hr, matchesPrefix_of_startsWith start, rfl⟩

end

/-- For an owner and a prefix that are not blank, the purge deletes what belongs to the owner and
nothing else exactly when the pattern on the runs finds nothing of others. -/
theorem purge_owner_exact_iff {γ : Type} (str : Json → String) (T : OwnedTables γ)
    (ownerUserId namePrefix : String) (hintedNames : List String)
    (owned : String.ofList (Undo.strip ownerUserId.toList) ≠ "") (named : namePrefix ≠ "") :
    PurgesExactly str namePrefix hintedNames T ownerUserId ↔
      Separated str (String.ofList (Undo.strip ownerUserId.toList)) namePrefix hintedNames T :=
  ⟨fun h => h.separated owned named, fun h => h.purgesExactly owned named⟩

/-! ### A job of the system with a run -/

def sampleStr : Json → String
  | .str s => s
  | _ => ""

/-- A job of the system and one run of it. -/
def backupTables : OwnedTables Unit :=
  { entries := ⟨[⟨1, "user-1-backup", "system", "{}", ()⟩], by simp⟩
    runs := ⟨[{ id := 1, entryId := 1, entryName := "user-1-backup", startedAt := 0 }], by simp⟩
    unique := by simp }

theorem purge_owner_exact_sample :
    PurgesExactly sampleStr "user_2_" [] backupTables " u2 " ↔
      Separated sampleStr (String.ofList (Undo.strip " u2 ".toList)) "user_2_" [] backupTables :=
  purge_owner_exact_iff sampleStr backupTables " u2 " "user_2_" [] (by decide) (by decide)

/-- The underscores of the prefix match the hyphens of the other name. -/
theorem purge_deletes_others :
    ¬∀ (T : OwnedTables Unit) (ownerUserId namePrefix : String) (hintedNames : List String),
      String.ofList (Undo.strip ownerUserId.toList) ≠ "" → namePrefix ≠ "" →
        PurgesExactly sampleStr namePrefix hintedNames T ownerUserId := by
  intro h
  have separated := (h backupTables "u1" "user_1_" [] (by decide) (by decide)).separated
    (by decide) (by decide)
  have found := separated.runs _ (List.mem_singleton_self _) (by decide)
  rcases found with start | hinted | ⟨e, he, own, -⟩
  · revert start
    decide
  · exact absurd hinted.1 List.not_mem_nil
  · rw [List.mem_singleton.mp he] at own
    exact absurd own.1 (by decide)

end Metnos.Jobs
