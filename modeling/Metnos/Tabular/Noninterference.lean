import Metnos.Tabular.Compile

/-!
# Tabular.Noninterference — values that differ only in what is declared sensitive

Two values are alike when they differ only under sensitive names, at any depth.  What may be shown of
the one is what may be shown of the other, and so is all that is said about rows.
-/

namespace Metnos.Tabular

variable {py : Outside} {S : List String}

/-- A name that hides its value: it is declared, and neither private nor the flag itself. -/
structure Hides (S : List String) (name : String) : Prop where
  declared : name ∈ S
  public_ : isPrivate name = false
  noFlag : name ≠ "sensitive"

mutual

inductive Alike (S : List String) : Value → Value → Prop
  | same (v : Value) : Alike S v v
  | list {vs ws : List Value} : AlikeItems S vs ws → Alike S (.list vs) (.list ws)
  | tuple {vs ws : List Value} : AlikeItems S vs ws → Alike S (.tuple vs) (.tuple ws)
  | dict {d e : Dict} : AlikeFields S d e → Alike S (.dict d) (.dict e)

inductive AlikeItems (S : List String) : List Value → List Value → Prop
  | nil : AlikeItems S [] []
  | cons {v w : Value} {vs ws : List Value} : Alike S v w → AlikeItems S vs ws →
      AlikeItems S (v :: vs) (w :: ws)

inductive AlikeFields (S : List String) : Dict → Dict → Prop
  | nil : AlikeFields S [] []
  | hidden {name : String} (v w : Value) {d e : Dict} : Hides S name → AlikeFields S d e →
      AlikeFields S ((.str name, v) :: d) ((.str name, w) :: e)
  | cons {key : Key} {v w : Value} {d e : Dict} : Alike S v w → AlikeFields S d e →
      AlikeFields S ((key, v) :: d) ((key, w) :: e)

end

theorem AlikeItems.refl : ∀ vs : List Value, AlikeItems S vs vs
  | [] => .nil
  | v :: vs => .cons (.same v) (AlikeItems.refl vs)

/-! ## Shapes -/

theorem Alike.isTrue {v w : Value} (h : Alike S v w) : v.isTrue = w.isTrue := by
  cases h <;> rfl

theorem Alike.isDict {v w : Value} (h : Alike S v w) : v.isDict = w.isDict := by
  cases h <;> rfl

theorem Alike.isRow {v w : Value} (h : Alike S v w) : v.isRow = w.isRow := by
  cases h <;> rfl

theorem AlikeItems.length {vs ws : List Value} : AlikeItems S vs ws → vs.length = ws.length
  | .nil => rfl
  | .cons _ rest => congrArg (· + 1) rest.length

theorem AlikeItems.isEmpty {vs ws : List Value} (h : AlikeItems S vs ws) : vs.isEmpty = ws.isEmpty := by
  cases h <;> rfl

theorem AlikeFields.isEmpty {d e : Dict} (h : AlikeFields S d e) : d.isEmpty = e.isEmpty := by
  cases h <;> rfl

theorem Alike.truthy {v w : Value} (h : Alike S v w) : truthy py v = truthy py w := by
  cases h with
  | same => rfl
  | list items => exact congrArg (!·) items.isEmpty
  | tuple items => exact congrArg (!·) items.isEmpty
  | dict fields => exact congrArg (!·) fields.isEmpty

theorem AlikeFields.keys {d e : Dict} : AlikeFields S d e → d.map Prod.fst = e.map Prod.fst
  | .nil => rfl
  | .hidden _ _ _ rest => congrArg (_ :: ·) rest.keys
  | .cons _ rest => congrArg (_ :: ·) rest.keys

theorem AlikeItems.take {vs ws : List Value} (h : AlikeItems S vs ws) (n : ℕ) :
    AlikeItems S (vs.take n) (ws.take n) := by
  induction n generalizing vs ws with
  | zero => exact .nil
  | succ n ih =>
    cases h with
    | nil => exact .nil
    | cons head rest => exact .cons head (ih rest)

theorem AlikeItems.filter {vs ws : List Value} {p : Value → Bool}
    (hp : ∀ v w, Alike S v w → p v = p w) (h : AlikeItems S vs ws) :
    AlikeItems S (vs.filter p) (ws.filter p) := by
  induction vs generalizing ws with
  | nil =>
    cases h
    exact .nil
  | cons v vs ih =>
    cases h with
    | cons head rest =>
      by_cases hv : p v = true
      · rw [List.filter_cons_of_pos hv, List.filter_cons_of_pos (hp _ _ head ▸ hv)]
        exact .cons head (ih rest)
      · rw [List.filter_cons_of_neg hv, List.filter_cons_of_neg (hp _ _ head ▸ hv)]
        exact ih rest

theorem AlikeItems.all {vs ws : List Value} {p : Value → Bool}
    (hp : ∀ v w, Alike S v w → p v = p w) (h : AlikeItems S vs ws) : vs.all p = ws.all p := by
  induction vs generalizing ws with
  | nil =>
    cases h
    rfl
  | cons v vs ih =>
    cases h with
    | cons head rest => rw [List.all_cons, List.all_cons, hp _ _ head, ih rest]

theorem AlikeItems.mapM {α : Type} {vs ws : List Value} {f g : Value → Except Error α}
    (hf : ∀ v w, Alike S v w → f v = g w) (h : AlikeItems S vs ws) : vs.mapM f = ws.mapM g := by
  induction vs generalizing ws with
  | nil =>
    cases h
    rfl
  | cons v vs ih =>
    cases h with
    | cons head rest => rw [List.mapM_cons, List.mapM_cons, hf _ _ head, ih rest]

theorem AlikeItems.mapM_zipIdx {α : Type} {vs ws : List Value} {f : Value × ℕ → Except Error α}
    (hf : ∀ v w n, Alike S v w → f (v, n) = f (w, n)) (h : AlikeItems S vs ws) (n : ℕ) :
    (vs.zipIdx n).mapM f = (ws.zipIdx n).mapM f := by
  induction vs generalizing ws n with
  | nil =>
    cases h
    rfl
  | cons v vs ih =>
    cases h with
    | cons head rest =>
      rw [List.zipIdx_cons, List.zipIdx_cons, List.mapM_cons, List.mapM_cons, hf _ _ n head,
        ih rest (n + 1)]

/-! ## Reads -/

theorem AlikeFields.get? {d e : Dict} {k : String} (h : AlikeFields S d e) (shown : ¬Hides S k) :
    Option.Rel (Alike S) (get? d k) (get? e k) := by
  induction d generalizing e with
  | nil =>
    cases h
    exact .none
  | cons field d ih =>
    cases h with
    | @hidden name v w _ e hides rest =>
      have other : ¬Key.str name = .str k := by
        rintro ⟨⟩
        exact shown hides
      unfold Tabular.get? at ih ⊢
      rw [List.find?_cons_of_neg (by simpa using other), List.find?_cons_of_neg (by simpa using other)]
      exact ih rest
    | @cons key v w _ e head rest =>
      unfold Tabular.get? at ih ⊢
      by_cases here : key = .str k
      · rw [List.find?_cons_of_pos (by simpa using here), List.find?_cons_of_pos (by simpa using here)]
        exact .some head
      · rw [List.find?_cons_of_neg (by simpa using here), List.find?_cons_of_neg (by simpa using here)]
        exact ih rest

theorem AlikeFields.getD {d e : Dict} {k : String} (h : AlikeFields S d e) (shown : ¬Hides S k)
    (default : Value) : Alike S (getD d k default) (getD e k default) := by
  have rel := h.get? shown
  unfold Tabular.getD
  generalize Tabular.get? d k = x at rel
  generalize Tabular.get? e k = y at rel
  cases rel with
  | none => exact .same default
  | some alike => exact alike

theorem AlikeFields.isSome {d e : Dict} (h : AlikeFields S d e) (k : String) :
    (Tabular.get? d k).isSome = (Tabular.get? e k).isSome := by
  have found : ∀ d : Dict, (Tabular.get? d k).isSome = (d.map Prod.fst).contains (.str k) := by
    intro d
    unfold Tabular.get?
    rw [Option.isSome_map, List.isSome_find?, List.contains_eq_any_beq, List.any_map]
    congr 1
    ext field
    exact decide_eq_decide.mpr eq_comm
  rw [found, found, h.keys]

theorem not_hides_private {name : String} (h : isPrivate name = true) : ¬Hides S name := by
  intro hides
  rw [hides.public_] at h
  cases h

theorem not_hides_flag : ¬Hides S "sensitive" := fun hides => hides.noFlag rfl

theorem AlikeFields.flag {d e : Dict} (h : AlikeFields S d e) :
    (Tabular.getD d "sensitive" .null).isTrue = (Tabular.getD e "sensitive" .null).isTrue :=
  (h.getD not_hides_flag .null).isTrue

theorem Alike.flagged {v w : Value} {k : String} (h : Alike S v w) (shown : ¬Hides S k) :
    v.flagged k = w.flagged k := by
  cases h with
  | same => rfl
  | list => rfl
  | tuple => rfl
  | dict fields => exact (fields.getD shown .null).isTrue

/-! ## What may be shown -/

mutual

theorem Alike.clean {v w : Value} : Alike S v w → clean S v = clean S w
  | .same _ => rfl
  | .list items => by
    unfold Tabular.clean
    rw [items.clean]
  | .tuple items => by
    unfold Tabular.clean
    rw [items.clean]
  | .dict fields => by
    unfold Tabular.clean
    have texts : ∀ d : Dict, d.all (fun field => field.1.isStr) = (d.map Prod.fst).all Key.isStr := by
      intro d
      rw [List.all_map]
      rfl
    rw [texts, texts, fields.keys, fields.flag, fields.clean]

theorem AlikeItems.clean {vs ws : List Value} : AlikeItems S vs ws → cleanItems S vs = cleanItems S ws
  | .nil => rfl
  | .cons head rest => by
    unfold cleanItems
    rw [head.clean, rest.clean]

theorem AlikeFields.clean {d e : Dict} : AlikeFields S d e → cleanFields S d = cleanFields S e
  | .nil => rfl
  | .hidden v w hides rest => by
    unfold cleanFields
    rw [if_pos (.inr hides.declared), if_pos (.inr hides.declared), rest.clean]
  | @AlikeFields.cons _ (.other _) _ _ _ _ _ rest => by
    unfold cleanFields
    exact rest.clean
  | @AlikeFields.cons _ (.str _) _ _ _ _ head rest => by
    unfold cleanFields
    rw [head.clean, rest.clean]

end

theorem Alike.cleanRow {v w : Value} (h : Alike S v w) : cleanRow S v = cleanRow S w := by
  cases h with
  | same => rfl
  | list items => exact items.clean
  | tuple items => exact items.clean
  | dict => rfl

end Metnos.Tabular

/-!
## A workbook does not depend on what is declared sensitive

Every channel to the workbook and to its notices filters what is declared itself.  Each of them is
taken by itself, from the notes about one row to the loop over the tables.
-/

namespace Metnos.Tabular

variable {py : Outside} {S : List String}

/-! ## What is said about rows -/

theorem Alike.reference {v w : Value} (h : Alike S v w) : v = w ∨
    validReference v = false ∧ validReference w = false := by
  cases h with
  | same => exact .inl rfl
  | list => exact .inr ⟨rfl, rfl⟩
  | tuple => exact .inr ⟨rfl, rfl⟩
  | dict => exact .inr ⟨rfl, rfl⟩

theorem not_hides {field : String} (h : field ∉ S) : ¬Hides S field := fun hides => h hides.declared

theorem Alike.observation {v w : Value} {field : String} (h : Alike S v w) (shown : field ∉ S) :
    observation S field v = observation S field w := by
  cases h with
  | same => rfl
  | list => rfl
  | tuple => rfl
  | @dict d e fields =>
    unfold Tabular.observation
    dsimp only
    rw [fields.flag]
    by_cases flag : (getD e "sensitive" .null).isTrue = true
    · rw [if_pos flag, if_pos flag]
    · rw [if_neg flag, if_neg flag]
      have rel := fields.get? (not_hides shown)
      have source := fields.getD (@not_hides_private S "_record_source" (by decide)) .null
      generalize get? d field = x at rel
      generalize get? e field = y at rel
      cases rel with
      | none => rfl
      | some alike =>
        dsimp only
        rw [alike.clean]
        obtain same | ⟨bad, bad'⟩ := source.reference
        · rw [same]
        · rw [if_pos bad, if_pos bad']

theorem AlikeFields.conflictWitnesses {d e : Dict} (h : AlikeFields S d e) :
    AlikeItems S (conflictWitnesses d) (conflictWitnesses e) := by
  have witnesses := h.getD (@not_hides_private S "_record_provenance" (by decide)) .null
  have self : AlikeItems S [.dict d] [.dict e] := .cons (.dict h) .nil
  unfold Tabular.conflictWitnesses
  generalize Tabular.getD d "_record_provenance" .null = v at witnesses
  generalize Tabular.getD e "_record_provenance" .null = w at witnesses
  cases witnesses with
  | same =>
    split
    · exact self
    · exact AlikeItems.refl _
    · exact self
  | list items =>
    cases items with
    | nil => exact self
    | cons head rest => exact .cons head rest
  | tuple => exact self
  | dict => exact self

theorem AlikeFields.conflictOn {d e : Dict} (h : AlikeFields S d e) {v w : Value} (field : Alike S v w)
    (sheet : String) (number : ℕ) :
    conflictOn py S sheet number d v = conflictOn py S sheet number e w := by
  cases field with
  | list => rfl
  | tuple => rfl
  | dict => rfl
  | same =>
    cases v with
    | str field =>
      have absent : (Tabular.get? d field).isNone = (Tabular.get? e field).isNone := by
        rw [← Option.not_isSome, ← Option.not_isSome, h.isSome]
      unfold Tabular.conflictOn
      dsimp only
      rw [absent]
      by_cases skipped : isPrivate field = true ∨ field ∈ S ∨ (Tabular.get? e field).isNone = true
      · rw [if_pos skipped, if_pos skipped]
      · rw [if_neg skipped, if_neg skipped]
        rw [h.conflictWitnesses.mapM fun v w alike =>
          alike.observation fun declared => skipped (.inr (.inl declared))]
    | _ => rfl

theorem Alike.conflictsIn {v w : Value} (h : Alike S v w) (sheet : String) (number : ℕ) :
    conflictsIn py S sheet number v = conflictsIn py S sheet number w := by
  cases h with
  | same => rfl
  | list => rfl
  | tuple => rfl
  | @dict d e fields =>
    have conflicts := fields.getD (@not_hides_private S "_record_conflicts" (by decide)) .null
    unfold Tabular.conflictsIn
    dsimp only
    rw [fields.flag]
    generalize getD d "_record_conflicts" .null = x at conflicts
    generalize getD e "_record_conflicts" .null = y at conflicts
    have each : ∀ a b, Alike S a b →
        conflictOn py S sheet number d a = conflictOn py S sheet number e b :=
      fun a b alike => fields.conflictOn alike sheet number
    cases conflicts with
    | list items =>
      dsimp only
      rw [items.mapM each]
    | tuple => rfl
    | dict => rfl
    | same =>
      cases x with
      | list items =>
        dsimp only
        rw [(AlikeItems.refl items).mapM each]
      | _ => rfl

theorem AlikeItems.conflictDetails {vs ws : List Value} (h : AlikeItems S vs ws) (sheet : String) :
    conflictDetails py vs S sheet = conflictDetails py ws S sheet := by
  unfold Tabular.conflictDetails
  rw [h.mapM_zipIdx (fun v w n alike => alike.conflictsIn sheet (n + 1)) 0]

theorem Alike.rowText {v w : Value} (h : Alike S v w) (columns : List Column) :
    rowText py v columns S = rowText py w columns S := by
  unfold Tabular.rowText
  rw [h.clean]

theorem map_of_keys {β : Type} {g : Key × Value → β} (hg : ∀ k v v', g (k, v) = g (k, v'))
    {d e : Dict} (h : d.map Prod.fst = e.map Prod.fst) : d.map g = e.map g := by
  induction d generalizing e with
  | nil =>
    rw [List.map_eq_nil_iff.mp h.symm]
  | cons field rest ih =>
    obtain ⟨other, others, rfl⟩ := List.exists_cons_of_ne_nil (l := e) (by rintro rfl; cases h)
    obtain ⟨k, v⟩ := field
    obtain ⟨k', v'⟩ := other
    obtain ⟨rfl, htail⟩ := List.cons.inj h
    rw [List.map_cons, List.map_cons, ih htail, hg k v v']

theorem Alike.iterate {v w : Value} (h : Alike S v w) :
    (∃ error, iterate py v = .error error ∧ iterate py w = .error error) ∨
      ∃ vs ws, iterate py v = .ok vs ∧ iterate py w = .ok ws ∧ AlikeItems S vs ws := by
  cases h with
  | same =>
    cases got : Tabular.iterate py v with
    | error e => exact .inl ⟨e, rfl, rfl⟩
    | ok vs => exact .inr ⟨vs, vs, rfl, rfl, AlikeItems.refl vs⟩
  | list items => exact .inr ⟨_, _, rfl, rfl, items⟩
  | tuple items => exact .inr ⟨_, _, rfl, rfl, items⟩
  | @dict d e fields =>
    have names : Tabular.iterate py (.dict d) = Tabular.iterate py (.dict e) :=
      congrArg Except.ok (map_of_keys (fun _ _ _ => rfl) fields.keys)
    rw [names]
    exact .inr ⟨_, _, rfl, rfl, AlikeItems.refl _⟩

theorem Alike.mergedRows {v w : Value} (h : Alike S v w) (columns : List Column) (sheet : String)
    (number : ℕ) : mergedRows py columns S sheet number v = mergedRows py columns S sheet number w := by
  cases h with
  | same => rfl
  | list => rfl
  | tuple => rfl
  | @dict d e fields =>
    have provenance := fields.getD (@not_hides_private S "_record_provenance" (by decide)) .null
    unfold Tabular.mergedRows
    dsimp only
    rw [fields.flag]
    by_cases flag : (getD e "sensitive" .null).isTrue = true
    · rw [if_pos flag, if_pos flag]
    · rw [if_neg flag, if_neg flag, provenance.truthy]
      by_cases given : Tabular.truthy py (getD e "_record_provenance" .null) = true
      · rw [if_pos given, if_pos given]
        obtain ⟨error, fails, fails'⟩ | ⟨vs, ws, gives, gives', members⟩ := provenance.iterate
        · rw [fails, fails']
        · have witnesses := members.filter (p := Value.isDict) fun _ _ alike => alike.isDict
          rw [gives, gives']
          show (if (vs.filter Value.isDict).length < 2 then _ else _) =
            if (ws.filter Value.isDict).length < 2 then _ else _
          rw [witnesses.length, witnesses.mapM fun v w alike => by rw [alike.rowText columns]]
      · rw [if_neg given, if_neg given]

theorem Alike.rejectedRow {v w : Value} (h : Alike S v w) (columns : List Column) (sheet : String) :
    rejectedRow py columns S sheet v = rejectedRow py columns S sheet w := by
  unfold Tabular.rejectedRow
  rw [h.flagged not_hides_flag, h.rowText columns]

theorem AlikeItems.rowActions {vs ws rejected rejected' : List Value} (h : AlikeItems S vs ws)
    (refused : AlikeItems S rejected rejected') (columns : List Column) (sheet : String) :
    rowActions py vs rejected columns S sheet = rowActions py ws rejected' columns S sheet := by
  unfold Tabular.rowActions
  rw [h.mapM_zipIdx (fun v w n alike => alike.mergedRows columns sheet (n + 1)) 0,
    refused.mapM fun v w alike => alike.rejectedRow columns sheet]

/-! ## Reading -/

theorem AlikeItems.read {vs ws : List Value} (h : AlikeItems S vs ws) (explicit : List Dict)
    (columnsArg : List Value) : read py S explicit columnsArg vs = read py S explicit columnsArg ws := by
  unfold Tabular.read readRecords readMatrix
  rw [h.isEmpty, h.all fun _ _ alike => alike.isDict, h.all fun _ _ alike => alike.isRow,
    h.mapM fun _ _ alike => alike.clean, h.mapM fun _ _ alike => alike.cleanRow]

/-! ## Envelopes -/

def Declares (key : String) : Prop := key ≠ "values" ∧ key ≠ "entries" ∧ key ≠ "sheets"

instance (key : String) : Decidable (Declares key) := inferInstanceAs (Decidable (_ ∧ _ ∧ _))

/-- Two envelopes with the same declarations. -/
def SameDeclarations (d e : Dict) : Prop := ∀ key, Declares key → get? d key = get? e key

/-- Two tables with the same declarations and alike rows. -/
structure SameTable (S : List String) (t u : Dict) : Prop where
  declared : SameDeclarations t u
  values : Option.Rel (Alike S) (get? t "values") (get? u "values")
  entries : Option.Rel (Alike S) (get? t "entries") (get? u "entries")

theorem SameDeclarations.getD {d e : Dict} (h : SameDeclarations d e) {key : String}
    (declares : Declares key) (default : Value) : getD d key default = getD e key default := by
  unfold Tabular.getD
  rw [h key declares]

theorem SameTable.rowsOf {t u : Dict} (h : SameTable S t u) :
    (∃ error, rowsOf t = .error error ∧ rowsOf u = .error error) ∨
      ∃ vs ws, rowsOf t = .ok vs ∧ rowsOf u = .ok ws ∧ AlikeItems S vs ws := by
  have orElse : ∀ {x y : Option Value} {v w : Value}, Option.Rel (Alike S) x y → Alike S v w →
      Alike S (x.getD v) (y.getD w) := by
    intro x y v w rel alike
    cases rel with
    | none => exact alike
    | some alike => exact alike
  have rows := orElse h.values (orElse h.entries (.same (.list [])))
  unfold Tabular.rowsOf Tabular.getD
  generalize (get? t "values").getD _ = v at rows
  generalize (get? u "values").getD _ = w at rows
  cases rows with
  | list items => exact .inr ⟨_, _, rfl, rfl, items⟩
  | tuple => exact .inl ⟨_, rfl, rfl⟩
  | dict => exact .inl ⟨_, rfl, rfl⟩
  | same =>
    cases v with
    | list items => exact .inr ⟨items, items, rfl, rfl, AlikeItems.refl items⟩
    | _ => exact .inl ⟨_, rfl, rfl⟩

theorem sensitiveFields_same {d e t u : Dict} (source : SameDeclarations d e)
    (table : SameDeclarations t u) (spec tableSpec : Dict) :
    sensitiveFields [d, spec, t, tableSpec] = sensitiveFields [e, spec, u, tableSpec] := by
  have declares : Declares "sensitive_fields" := by decide
  simp only [sensitiveFields, source.getD declares, table.getD declares]

theorem SameTable.openTable {d e t u : Dict} {spec tableSpec : Dict} {S : List String}
    (source : SameDeclarations d e) (names : sensitiveNames py d spec t tableSpec = .ok S)
    (h : SameTable S t u) :
    (∃ error, openTable py d spec t tableSpec = .error error ∧
        openTable py e spec u tableSpec = .error error) ∨
      ∃ opened rejected raw, openTable py d spec t tableSpec = .ok opened ∧
        openTable py e spec u tableSpec = .ok { opened with rejected := rejected, raw := raw } ∧
        opened.sensitive = S ∧ AlikeItems S opened.rejected rejected ∧ AlikeItems S opened.raw raw := by
  unfold sensitiveNames at names
  simp only [Transaction.bind_eq_ok, Transaction.pure_eq_ok] at names
  obtain ⟨declared, ofDeclared, explicit, ofExplicit, flagged, ofFlagged, rfl⟩ := names
  have ofDeclared' := (sensitiveFields_same source h.declared spec tableSpec).symm.trans ofDeclared
  unfold Tabular.openTable
  simp only [bind, Except.bind, ofDeclared, ofDeclared', ofExplicit, ofFlagged]
  obtain ⟨error, fails, fails'⟩ | ⟨vs, ws, gives, gives', rows⟩ := h.rowsOf
  · rw [fails, fails']
    exact .inl ⟨error, rfl, rfl⟩
  · rw [gives, gives']
    dsimp only
    have rejected : ∀ v w, Alike (declared ++ namesOf flagged) v w → isRejected v = isRejected w :=
      fun v w alike => alike.flagged (not_hides_private (by decide))
    have out := rows.filter rejected
    have kept := rows.filter (p := fun row => !isRejected row) fun v w alike =>
      congrArg (!·) (rejected v w alike)
    obtain error | _ := checkColumns py declared flagged explicit
    · exact .inl ⟨error, rfl, rfl⟩
    · obtain error | columnsArg := columnsArgOf tableSpec
      · exact .inl ⟨error, rfl, rfl⟩
      · obtain error | hasHeader := hasHeaderOf tableSpec
        · exact .inl ⟨error, rfl, rfl⟩
        · dsimp only
          rw [kept.read explicit columnsArg]
          obtain error | reading := Tabular.read py (declared ++ namesOf flagged) explicit columnsArg
            (ws.filter fun row => !isRejected row)
          · exact .inl ⟨error, rfl, rfl⟩
          · dsimp only
            by_cases schema : reading.values.isEmpty = false ∧ reading.columns.isEmpty = true
            · rw [if_pos schema, if_pos schema]
              exact .inl ⟨_, rfl, rfl⟩
            · rw [if_neg schema, if_neg schema]
              exact .inr ⟨_, _, _, rfl, rfl, rfl, out, kept⟩

theorem SameTable.openTable_refused {d e t u : Dict} {spec tableSpec : Dict} {S : List String}
    (source : SameDeclarations d e) {error : Error}
    (names : sensitiveNames py d spec t tableSpec = .error error) (h : SameTable S t u) :
    ∃ error, Tabular.openTable py d spec t tableSpec = .error error ∧
      Tabular.openTable py e spec u tableSpec = .error error := by
  have same := sensitiveFields_same source h.declared spec tableSpec
  unfold sensitiveNames at names
  unfold Tabular.openTable
  rw [← same]
  simp only [bind, Except.bind] at names ⊢
  generalize sensitiveFields [d, spec, t, tableSpec] = declared at names ⊢
  generalize explicitColumns py tableSpec = asked at names ⊢
  obtain refused | declared := declared
  · exact ⟨refused, rfl, rfl⟩
  · obtain ⟨refused, fails, fails'⟩ | ⟨vs, ws, gives, gives', rows⟩ := h.rowsOf
    · rw [fails, fails']
      exact ⟨refused, rfl, rfl⟩
    · rw [gives, gives']
      dsimp only at names ⊢
      obtain refused | explicit := asked
      · exact ⟨refused, rfl, rfl⟩
      · dsimp only at names ⊢
        generalize flaggedSources explicit = flagged at names ⊢
        obtain refused | flagged := flagged
        · exact ⟨refused, rfl, rfl⟩
        · cases names

/-! ## Tables -/

theorem SameDeclarations.sourceMetadata {d e t u : Dict} (source : SameDeclarations d e)
    (table : SameDeclarations t u) (S : List String) : sourceMetadata t d S = sourceMetadata u e S := by
  unfold Tabular.sourceMetadata
  have fields : ∀ key ∈ sourceMetadataFields, Declares key := by decide
  rw [List.filterMap_congr fun key mem => by
    rw [table key (fields key mem), source key (fields key mem)]]

theorem SameDeclarations.evidenceOf {d e t u : Dict} (source : SameDeclarations d e)
    (table : SameDeclarations t u) (name : String) (S : List String) :
    evidenceOf py name d t S = evidenceOf py name e u S := by
  have declares : Declares "source_metadata" := by decide
  unfold Tabular.evidenceOf
  rw [source.getD declares, table.getD declares, source.sourceMetadata table]

theorem SameDeclarations.provenanceNotices {d e t u : Dict} (source : SameDeclarations d e)
    (table : SameDeclarations t u) (name : String) (S : List String) :
    provenanceNotices py name d t S = provenanceNotices py name e u S := by
  have declares : Declares "provenance" := by decide
  unfold Tabular.provenanceNotices
  rw [source.getD declares, table.getD declares]

theorem rowNotices_same {job : Job} {e t u : Dict} {opened : Opened} {rejected raw : List Value}
    (source : SameDeclarations job.source e) (table : SameDeclarations t u)
    (refused : AlikeItems opened.sensitive opened.rejected rejected) {kept kept' : List Value}
    (rows : AlikeItems opened.sensitive kept kept') (name : String) (columns : List Column) :
    rowNotices py job name t opened kept columns =
      rowNotices py { job with source := e } name u
        { opened with rejected := rejected, raw := raw } kept' columns := by
  have declares : Declares "row_actions" := by decide
  unfold rowNotices
  dsimp only
  rw [rows.rowActions refused, rows.conflictDetails, refused.isEmpty, refused.length,
    source.getD declares, table.getD declares]

theorem compileSheet_same {job : Job} {e t u tableSpec : Dict} {S : List String}
    (source : SameDeclarations job.source e)
    (names : ∀ S', sensitiveNames py job.source job.spec t tableSpec = .ok S' → S' = S)
    (h : SameTable S t u) (used : List String) (cellsUsed : ℤ) (index : ℕ) :
    compileSheet py job used cellsUsed index (.dict t) (.dict tableSpec) =
      compileSheet py { job with source := e } used cellsUsed index (.dict u) (.dict tableSpec) := by
  have opening : (∃ error, openTable py job.source job.spec t tableSpec = .error error ∧
        openTable py e job.spec u tableSpec = .error error) ∨
      ∃ opened rejected raw, openTable py job.source job.spec t tableSpec = .ok opened ∧
        openTable py e job.spec u tableSpec = .ok { opened with rejected := rejected, raw := raw } ∧
        opened.sensitive = S ∧ AlikeItems S opened.rejected rejected ∧ AlikeItems S opened.raw raw := by
    obtain ⟨error, refused⟩ | ⟨S', given⟩ :
        (∃ error, sensitiveNames py job.source job.spec t tableSpec = .error error) ∨
          ∃ S', sensitiveNames py job.source job.spec t tableSpec = .ok S' := by
      cases sensitiveNames py job.source job.spec t tableSpec with
      | error error => exact .inl ⟨error, rfl⟩
      | ok S' => exact .inr ⟨S', rfl⟩
    · exact .inl (h.openTable_refused source refused)
    · rw [names S' given] at given
      exact h.openTable source given
  unfold compileSheet
  dsimp only
  obtain ⟨error, fails, fails'⟩ | ⟨opened, rejected, raw, gives, gives', rfl, refused, rows⟩ := opening
  · rw [fails, fails']
    rfl
  · have said := fun k name columns => @rowNotices_same py job e t u opened rejected raw source h.declared refused
      _ _ (rows.take k) name columns
    rw [gives, gives']
    simp only [bind, Except.bind, source.evidenceOf h.declared, source.provenanceNotices h.declared,
      rows.isEmpty, said]
    rfl

/-! ## Workbooks -/

/-- The names that hide their values in a table; there are none where the declarations are refused. -/
def hiddenNames (py : Outside) (source spec table tableSpec : Dict) : List String :=
  match sensitiveNames py source spec table tableSpec with
  | .ok names => names
  | .error _ => []

/-- Two tables with their specifications, for one source. -/
inductive SamePair (py : Outside) (source spec : Dict) : Value × Value → Value × Value → Prop
  | same (pair : Value × Value) : SamePair py source spec pair pair
  | rows {t u tableSpec : Dict} : SameTable (hiddenNames py source spec t tableSpec) t u →
      SamePair py source spec (.dict t, .dict tableSpec) (.dict u, .dict tableSpec)

/-- Two answers that raise the same, or are related. -/
inductive SameAnswer {α : Type} (R : α → α → Prop) : Except Error α → Except Error α → Prop
  | error (refused : Error) : SameAnswer R (.error refused) (.error refused)
  | ok {a b : α} : R a b → SameAnswer R (.ok a) (.ok b)

/-- Two envelopes with the same declarations, and the same tables but for what these hide. -/
structure SameEnvelope (py : Outside) (spec d e : Dict) : Prop where
  declared : SameDeclarations d e
  tables : SameAnswer (List.Forall₂ (SamePair py d spec)) (tablesOf py d spec) (tablesOf py e spec)

/-- Two sources that differ only in what they declare sensitive. -/
def SameSource (py : Outside) (spec source source' : Value) : Prop :=
  ∀ s, specOf py spec = .ok s → SameAnswer (SameEnvelope py s) (sourceOf source) (sourceOf source')

theorem rel_refl (S : List String) : ∀ x : Option Value, Option.Rel (Alike S) x x
  | none => .none
  | some v => .some (.same v)

theorem SameTable.refl (S : List String) (t : Dict) : SameTable S t t :=
  ⟨fun _ _ => rfl, rel_refl S _, rel_refl S _⟩

theorem SamePair.compileSheet {job : Job} {e : Dict} (source : SameDeclarations job.source e)
    {pair pair' : Value × Value} (h : SamePair py job.source job.spec pair pair')
    (used : List String) (cellsUsed : ℤ) (index : ℕ) :
    compileSheet py job used cellsUsed index pair.1 pair.2 =
      compileSheet py { job with source := e } used cellsUsed index pair'.1 pair'.2 := by
  have byTable : ∀ {t u tableSpec : Dict}, SameTable (hiddenNames py job.source job.spec t tableSpec) t u →
      Tabular.compileSheet py job used cellsUsed index (.dict t) (.dict tableSpec) =
        Tabular.compileSheet py { job with source := e } used cellsUsed index (.dict u) (.dict tableSpec) := by
    intro t u tableSpec table
    refine compileSheet_same source (fun S' given => ?_) table used cellsUsed index
    unfold hiddenNames
    rw [given]
  cases h with
  | rows table => exact byTable table
  | same =>
    obtain ⟨table, tableSpec⟩ := pair
    cases table with
    | dict t =>
      cases tableSpec with
      | dict tableSpec => exact byTable (SameTable.refl _ t)
      | _ => rfl
    | _ => rfl

theorem compileSheets_same {job : Job} {e : Dict} (source : SameDeclarations job.source e)
    {pairs pairs' : List (Value × Value)}
    (h : List.Forall₂ (SamePair py job.source job.spec) pairs pairs') (used : List String)
    (cellsUsed : ℤ) (index : ℕ) :
    compileSheets py job used cellsUsed index pairs =
      compileSheets py { job with source := e } used cellsUsed index pairs' := by
  induction h generalizing used cellsUsed index with
  | nil => rfl
  | @cons pair pair' pairs pairs' head _ ih =>
    obtain ⟨table, tableSpec⟩ := pair
    obtain ⟨table', tableSpec'⟩ := pair'
    have sheet := head.compileSheet source used cellsUsed index
    unfold compileSheets
    simp only [sheet, ih]

/-- A workbook, its notices and its truncations do not depend on what is declared sensitive. -/
theorem compileWorkbook_noninterference (py : Outside) (spec : Value) (capabilities : Capabilities)
    (monthNames : Value) {source source' : Value} (h : SameSource py spec source source') :
    compileWorkbook py source spec capabilities monthNames =
      compileWorkbook py source' spec capabilities monthNames := by
  unfold compileWorkbook jobOf
  cases ofSpec : specOf py spec with
  | error refused => rfl
  | ok s =>
    have same := h s ofSpec
    generalize sourceOf source = x at same
    generalize sourceOf source' = y at same
    cases same with
    | error refused => rfl
    | @ok d e envelope =>
      have tables := envelope.tables
      simp only [bind, Except.bind]
      generalize tablesOf py d s = x at tables
      generalize tablesOf py e s = y at tables
      cases tables with
      | error refused => rfl
      | @ok pairs pairs' alike =>
        dsimp only
        rw [alike.length_eq]
        by_cases several : capabilities.multiSheet = false ∧ 1 < pairs'.length
        · rw [if_pos several, if_pos several]
        · rw [if_neg several, if_neg several]
          cases localeOf s with
          | error refused => rfl
          | ok locale =>
            have parts := @compileSheets_same py
              ⟨d, s, decide (pairs'.length = 1), locale, monthNames, capabilities⟩ e
              envelope.declared pairs pairs' alike [] 0 1
            dsimp only [pure, Except.pure]
            rw [parts]

/-! ## A password -/

/-- A record with a password, which its envelope declares. -/
def sampleAccount (password : String) : Dict :=
  [(.str "sensitive_fields", .list [.str "password"]),
    (.str "entries", .list [.dict [(.str "name", .str "ann"), (.str "password", .str password)]])]

theorem sampleAccount_declares (p q : String) :
    SameDeclarations (sampleAccount p) (sampleAccount q) := by
  intro key declares
  have other : ¬Key.str "entries" = .str key := by
    rintro ⟨⟩
    exact declares.2.1 rfl
  unfold sampleAccount get?
  by_cases first : Key.str "sensitive_fields" = .str key
  · rw [List.find?_cons_of_pos (by simpa using first), List.find?_cons_of_pos (by simpa using first)]
  · rw [List.find?_cons_of_neg (by simpa using first), List.find?_cons_of_neg (by simpa using other),
      List.find?_cons_of_neg (by simpa using first), List.find?_cons_of_neg (by simpa using other)]

theorem sampleAccount_same (p q : String) :
    SameSource plainOutside .null (.dict (sampleAccount p)) (.dict (sampleAccount q)) := by
  intro s ofSpec
  have empty : s = [] := (Except.ok.inj ofSpec).symm
  subst empty
  have names : hiddenNames plainOutside (sampleAccount p) [] (sampleAccount p) [] =
      ["password", "password"] := rfl
  have hides : Hides ["password", "password"] "password" := ⟨by decide, by decide, by decide⟩
  have row : Alike ["password", "password"]
      (.dict [(.str "name", .str "ann"), (.str "password", .str p)])
      (.dict [(.str "name", .str "ann"), (.str "password", .str q)]) :=
    .dict (.cons (.same _) (.hidden _ _ hides .nil))
  have table : SameTable (hiddenNames plainOutside (sampleAccount p) [] (sampleAccount p) [])
      (sampleAccount p) (sampleAccount q) := by
    rw [names]
    exact ⟨sampleAccount_declares p q, .none, .some (.list (.cons row .nil))⟩
  exact .ok ⟨sampleAccount_declares p q, .ok (.cons (.rows table) .nil)⟩

/-- Two accounts that differ in their passwords are written alike. -/
theorem password_unseen :
    compileWorkbook plainOutside (.dict (sampleAccount "x")) .null ⟨[.text], true, 10, 10, 100, 100⟩ .null =
      compileWorkbook plainOutside (.dict (sampleAccount "y")) .null ⟨[.text], true, 10, 10, 100, 100⟩
        .null :=
  compileWorkbook_noninterference plainOutside .null _ .null (sampleAccount_same "x" "y")

example : (compileWorkbook plainOutside (.dict (sampleAccount "x")) .null
    ⟨[.text], true, 10, 10, 100, 100⟩ .null).isOk = true := by
  decide

end Metnos.Tabular
