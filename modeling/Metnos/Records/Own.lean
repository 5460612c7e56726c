import Mathlib
import Metnos.Records.Completion

/-!
# Records.Own — when completed identifiers are the records' own

A completion changes nothing but the facts of bare records, and adds one fact to each at most.  The
fact is the record's own exactly where no other record has the value of the first offer that the
annotations leave, and the quote of that offer shows the value.
-/

namespace Metnos.Records

open Dynamic Undo Reservation

/-- The fact is a record's own identifier: its value in the field, quoted from its source, and no
other record's value there. -/
def Own (source : Option Text) (records : List Dict) (i : ℕ) (r fact : Dict) : Prop :=
  ∃ field value quote text, isOwn fact = true ∧ fact.get "field" = .str field ∧
    fact.get "value" = .str value ∧ fact.get "quote" = .str quote ∧ r.get field = .str value ∧
    source = some text ∧ quote.toList <:+: text ∧ value.toList <:+: quote.toList ∧
    ∀ j r', j ≠ i → records[j]? = some r' → r'.get field ≠ .str value

/-- What a completion of the records may be. -/
structure OwnIdentifiers (source : Dict → Option Text) (records out : List Dict) : Prop where
  length : out.length = records.length
  kept : ∀ (i : ℕ) r, records[i]? = some r → annotated r = true → out[i]? = some r
  fields : ∀ (i : ℕ) r r', records[i]? = some r → out[i]? = some r' →
    ∀ k, k ≠ "_record_facts" → Json.get? r' k = Json.get? r k
  facts : ∀ (i : ℕ) r r', records[i]? = some r → out[i]? = some r' → r' = r ∨
    ∃ fact, factsOf r' = (factsOf r).map (· ++ [fact]) ∧ Own (source r) records i r fact

/-- The field of a record has the value. -/
def holds (r : Dict) (k : String × String) : Prop := r.get k.1 = .str k.2

/-- What an offer says is so. -/
structure Lawful (source : Dict → Option Text) (offers : Dict → List Offer) : Prop where
  bare : ∀ r, ∀ o ∈ offers r, annotated r = false
  holds : ∀ r, ∀ o ∈ offers r, holds r o.key
  own : ∀ r, ∀ o ∈ offers r, isOwn o.fact = true
  fact : ∀ r, ∀ o ∈ offers r, o.fact.get "field" = .str o.field ∧
    o.fact.get "value" = .str o.value ∧ o.fact.get "quote" = .str (String.ofList o.quote)
  source : ∀ r, ∀ o ∈ offers r, ∃ text, source r = some text ∧ o.quote <:+: text

/-! ## What is done to one record -/

def applied (r : Dict) : Option Offer → Dict
  | none => r
  | some o => annotate r o.fact

variable {offers : Dict → List Offer} {source : Dict → Option Text} {taken : List (String × String)}
  {records : List Dict}

theorem factsOf_annotate {r fact : Dict} {facts : List Dict} (h : factsOf r = some facts) :
    factsOf (annotate r fact) = some (facts ++ [fact]) := by
  have got : (annotate r fact).get "_record_facts" =
      .arr (((factsOf r).getD []).map .obj ++ [.obj fact]) := by
    unfold annotate Dict.get
    rw [Dict.get?_set, if_pos rfl]
    rfl
  have objects : ∀ l : List Dict, (l.map Json.obj).filterMap asDict = l := by
    intro l
    rw [List.filterMap_map]
    exact List.filterMap_some
  unfold factsOf
  rw [got, h]
  show some (List.filterMap asDict _) = _
  rw [List.filterMap_append]
  congr 2
  exact objects facts

theorem get?_annotate {r fact : Dict} {k : String} (other : k ≠ "_record_facts") :
    Json.get? (annotate r fact) k = Json.get? r k := by
  unfold annotate
  rw [Dict.get?_set, if_neg other]

theorem pick_eq (offers : Dict → List Offer) (taken : List (String × String)) (r : Dict) :
    pick (fun _ => Offer.key) offers taken r =
      (offers r).find? fun o => decide (o.key ∉ taken) :=
  List.find?_congr fun _ _ => decide_eq_decide.mpr Iff.rfl

theorem completeFrom_eq (offers : Dict → List Offer) (taken : List (String × String))
    (records : List Dict) : completeFrom offers taken records =
      List.zipWith applied records (assign (fun _ => Offer.key) offers taken records) := by
  induction records generalizing taken with
  | nil => rfl
  | cons r rest ih =>
    unfold completeFrom assign
    rw [pick_eq]
    cases (offers r).find? fun o => decide (o.key ∉ taken) with
    | none =>
      dsimp only
      rw [ih]
      rfl
    | some o =>
      dsimp only
      rw [ih]
      rfl

theorem length_assign (offers : Dict → List Offer) (taken : List (String × String))
    (records : List Dict) :
    (assign (fun _ => Offer.key) offers taken records).length = records.length := by
  induction records generalizing taken with
  | nil => rfl
  | cons r rest ih =>
    unfold assign
    split
    · exact congrArg Nat.succ (ih _)
    · exact congrArg Nat.succ (ih _)

theorem completed_at {i : ℕ} {r : Dict} (h : records[i]? = some r) :
    ∃ p, (assign (fun _ => Offer.key) offers taken records)[i]? = some p ∧
      (completeFrom offers taken records)[i]? = some (applied r p) := by
  have inside : i < (assign (fun _ => Offer.key) offers taken records).length := by
    rw [length_assign]
    exact (List.getElem?_eq_some_iff.mp h).1
  obtain ⟨p, found⟩ : ∃ p, (assign (fun _ => Offer.key) offers taken records)[i]? = some p :=
    ⟨_, List.getElem?_eq_getElem inside⟩
  refine ⟨p, found, ?_⟩
  rw [completeFrom_eq, List.getElem?_zipWith, h, found]

theorem assign_mem {taken : List (String × String)} {i : ℕ} {r : Dict} {o : Offer}
    (here : records[i]? = some r)
    (picked : (assign (fun _ => Offer.key) offers taken records)[i]? = some (some o)) :
    o ∈ offers r := by
  induction records generalizing taken i with
  | nil => cases here
  | cons a l ih =>
    unfold assign at picked
    cases first : pick (fun _ => Offer.key) offers taken a with
    | none =>
      rw [first] at picked
      cases i with
      | zero => cases picked
      | succ i => exact ih here picked
    | some b =>
      rw [first] at picked
      cases i with
      | zero =>
        cases here
        cases picked
        exact pick_mem first
      | succ i => exact ih here picked

theorem own_iff (lawful : Lawful source offers) {i : ℕ} {r : Dict} {o : Offer} (mem : o ∈ offers r) :
    Own (source r) records i r o.fact ↔ o.value.toList <:+: o.quote ∧
      ∀ j r', j ≠ i → records[j]? = some r' → ¬ holds r' o.key := by
  obtain ⟨field, value, quote⟩ := lawful.fact r o mem
  constructor
  · rintro ⟨field', value', quote', text, -, isField, isValue, isQuote, -, -, -, shown, alone⟩
    rw [field] at isField
    rw [value] at isValue
    rw [quote] at isQuote
    cases isField
    cases isValue
    cases isQuote
    rw [String.toList_ofList] at shown
    exact ⟨shown, alone⟩
  · rintro ⟨shown, alone⟩
    obtain ⟨text, found, inside⟩ := lawful.source r o mem
    refine ⟨o.field, o.value, String.ofList o.quote, text, lawful.own r o mem, field, value, quote,
      lawful.holds r o mem, found, ?_, ?_, alone⟩
    · rw [String.toList_ofList]
      exact inside
    · rw [String.toList_ofList]
      exact shown

/-- **A completion gives records their own identifiers** exactly if the first offer that the
annotations leave to a bare record is for no other record's value, and shows the value. -/
theorem completeFrom_own_iff (lawful : Lawful source offers)
    (iterable : ∀ r ∈ records, (factsOf r).isSome = true) (taken : List (String × String)) :
    OwnIdentifiers source records (completeFrom offers taken records) ↔
      ∀ (i : ℕ) r o, records[i]? = some r →
        (offers r).find? (fun o => decide (o.key ∉ taken)) = some o →
        o.value.toList <:+: o.quote ∧
          ∀ j r', j ≠ i → records[j]? = some r' → ¬ holds r' o.key := by
  obtain ⟨alone_iff, same⟩ := @assign_alone_iff _ _ _ (fun _ => Offer.key) _ _ offers lawful.holds taken records
  have facts : ∀ (i : ℕ) r, records[i]? = some r → ∃ facts, factsOf r = some facts := fun i r here =>
    Option.isSome_iff_exists.mp (iterable r (List.mem_of_getElem? here))
  constructor
  · intro own i r o here first
    -- what a record has got is its own
    have got : ∀ (i : ℕ) r o, records[i]? = some r →
        (assign (fun _ => Offer.key) offers taken records)[i]? = some (some o) →
        Own (source r) records i r o.fact := by
      intro i r o here picked
      obtain ⟨p, found, out⟩ := @completed_at offers taken _ _ _ here
      rw [picked] at found
      cases found
      obtain ⟨l, iter⟩ := facts i r here
      have more : factsOf (annotate r o.fact) = some (l ++ [o.fact]) := factsOf_annotate iter
      obtain unchanged | ⟨fact, added, owned⟩ := own.facts i r _ here out
      · have longer : l ++ [o.fact] = l := by
          rw [show annotate r o.fact = r from unchanged, iter] at more
          exact (Option.some.inj more).symm
        have lengths := congrArg List.length longer
        rw [List.length_append, List.length_singleton] at lengths
        omega
      · rw [show applied r (some o) = annotate r o.fact from rfl, more, iter, Option.map_some,
          Option.some.injEq] at added
        obtain rfl : o.fact = fact := List.singleton_inj.mp (List.append_cancel_left added)
        exact owned
    have alone : Alone (fun _ => Offer.key) holds records
        (assign (fun _ => Offer.key) offers taken records) := by
      intro i r o here picked
      exact ((own_iff lawful (assign_mem here picked)).mp (got i r o here picked)).2
    have picked : (assign (fun _ => Offer.key) offers taken records)[i]? = some (some o) := by
      rw [same (alone_iff.mp alone), List.getElem?_map, here, Option.map_some, pick_eq, first]
    exact (own_iff lawful (assign_mem here picked)).mp (got i r o here picked)
  · intro cond
    have alone : Alone (fun _ => Offer.key) holds records
        (records.map (pick (fun _ => Offer.key) offers taken)) := by
      intro i r o here picked
      rw [List.getElem?_map, here, Option.map_some, Option.some.injEq] at picked
      rw [pick_eq] at picked
      exact (cond i r o here picked).2
    have picks : ∀ (i : ℕ) r p, records[i]? = some r →
        (assign (fun _ => Offer.key) offers taken records)[i]? = some p →
        p = (offers r).find? fun o => decide (o.key ∉ taken) := by
      intro i r p here found
      rw [same alone, List.getElem?_map, here, Option.map_some, Option.some.injEq] at found
      rw [← found, pick_eq]
    refine ⟨?_, ?_, ?_, ?_⟩
    · rw [completeFrom_eq, List.length_zipWith, length_assign, Nat.min_self]
    · intro i r here has
      obtain ⟨p, found, out⟩ := @completed_at offers taken _ _ _ here
      cases p with
      | none => exact out
      | some o =>
        have bare := lawful.bare r o (assign_mem here found)
        rw [has] at bare
        cases bare
    · intro i r r' here out' k other
      obtain ⟨p, found, out⟩ := @completed_at offers taken _ _ _ here
      rw [out] at out'
      cases out'
      cases p with
      | none => rfl
      | some o => exact get?_annotate other
    · intro i r r' here out'
      obtain ⟨p, found, out⟩ := @completed_at offers taken _ _ _ here
      rw [out] at out'
      cases out'
      cases p with
      | none => exact .inl rfl
      | some o =>
        obtain ⟨l, iter⟩ := facts i r here
        refine .inr ⟨o.fact, ?_, ?_⟩
        · rw [show applied r (some o) = annotate r o.fact from rfl, factsOf_annotate iter, iter]
          rfl
        · exact (own_iff lawful (assign_mem here found)).mpr
            (cond i r o here (picks i r _ here found).symm)

/-! ## The two completions -/

local instance lawfulKey : LawfulBEq (String × String) := inferInstance

/-- The first offer that the annotations leave to a record is for no other record's value. -/
def FirstAlone (offers : Dict → List Offer) (taken : List (String × String))
    (records : List Dict) : Prop :=
  ∀ (i : ℕ) r o, records[i]? = some r →
    (offers r).find? (fun o => decide (o.key ∉ taken)) = some o →
    ∀ j r', j ≠ i → records[j]? = some r' → ¬ holds r' o.key

/-- The span that is found for it shows the value. -/
def FirstShown (offers : Dict → List Offer) (taken : List (String × String))
    (records : List Dict) : Prop :=
  ∀ r ∈ records, ∀ o, (offers r).find? (fun o => decide (o.key ∉ taken)) = some o →
    o.value.toList <:+: o.quote

theorem completeFrom_own (lawful : Lawful source offers)
    (iterable : ∀ r ∈ records, (factsOf r).isSome = true) (taken : List (String × String)) :
    OwnIdentifiers source records (completeFrom offers taken records) ↔
      FirstAlone offers taken records ∧ FirstShown offers taken records := by
  rw [completeFrom_own_iff lawful iterable]
  constructor
  · intro cond
    refine ⟨fun i r o here first => (cond i r o here first).2, fun r mem o first => ?_⟩
    obtain ⟨i, here⟩ := List.getElem?_of_mem mem
    exact (cond i r o here first).1
  · rintro ⟨alone, shown⟩ i r o here first
    exact ⟨shown r (List.mem_of_getElem? here) o first, alone i r o here first⟩

theorem completeFrom_nothing (h : ∀ r, offers r = []) (taken : List (String × String)) :
    completeFrom offers taken records = records := by
  induction records with
  | nil => rfl
  | cons r rest ih =>
    unfold completeFrom
    rw [h r]
    exact congrArg (r :: ·) ih

variable {py : Python}

theorem isOwn_set {f : Dict} {k : String} {v : Json} (role : k ≠ "role") (owner : k ≠ "owner") :
    isOwn (f.set k v) = isOwn f := by
  unfold isOwn isIdentifier Dict.get
  rw [Dict.get?_set, Dict.get?_set, if_neg (Ne.symm role), if_neg (Ne.symm owner)]

theorem reference_some {r f : Dict} {ref : Reference} (h : reference r f = some ref) :
    ref.fact = f ∧ isOwn f = true ∧ f.get "field" = .str ref.field := by
  unfold reference at h
  split_ifs at h with own
  split at h
  · rename_i value quote field shown named
    split_ifs at h
    cases h
    exact ⟨rfl, Bool.not_eq_false _ ▸ own, named⟩
  · cases h

theorem references_own {ref : Reference} (h : ref ∈ references records) :
    isOwn ref.fact = true ∧ ref.fact.get "field" = .str ref.field := by
  obtain ⟨r, -, mem⟩ := List.mem_flatMap.mp h
  obtain ⟨f, -, found⟩ := List.mem_filterMap.mp mem
  obtain ⟨rfl, own, field⟩ := reference_some found
  exact ⟨own, field⟩

theorem offer_some {source : Text} {r : Dict} {ref : Reference} {o : Offer}
    (h : offer py source r ref = some o) : o.field = ref.field ∧ holds r o.key ∧
      o.quote <:+: source ∧ o.fact = (ref.fact.set "value" (.str o.value)).set "quote"
        (.str (String.ofList o.quote)) := by
  unfold offer at h
  split at h
  · rename_i value got
    dsimp only at h
    split_ifs at h
    obtain ⟨quote, found, rfl⟩ := Option.map_eq_some_iff.mp h
    exact ⟨rfl, got, literalQuoteSpan_infix found, rfl⟩
  · cases h

theorem offersWithin_lawful (records : List Dict) (source : Text) :
    Lawful (fun _ => some source) (offersWithin py (references records) source) := by
  have made : ∀ r, ∀ o ∈ offersWithin py (references records) source r, annotated r = false ∧
      ∃ ref ∈ references records, offer py source r ref = some o := by
    intro r o mem
    unfold offersWithin at mem
    split_ifs at mem with has
    · cases mem
    · exact ⟨Bool.eq_false_iff.mpr has, List.mem_filterMap.mp mem⟩
  refine ⟨fun r o mem => (made r o mem).1, ?_, ?_, ?_, ?_⟩
  · intro r o mem
    obtain ⟨-, ref, -, offered⟩ := made r o mem
    exact (offer_some offered).2.1
  · intro r o mem
    obtain ⟨-, ref, known, offered⟩ := made r o mem
    rw [(offer_some offered).2.2.2, isOwn_set (by decide) (by decide),
      isOwn_set (by decide) (by decide)]
    exact (references_own known).1
  · intro r o mem
    obtain ⟨-, ref, known, offered⟩ := made r o mem
    obtain ⟨field, -, -, fact⟩ := offer_some offered
    rw [fact, field]
    unfold Dict.get
    simp only [Dict.get?_set]
    exact ⟨(references_own known).2, rfl, rfl⟩
  · intro r o mem
    obtain ⟨-, ref, -, offered⟩ := made r o mem
    exact ⟨source, rfl, (offer_some offered).2.2.1⟩

theorem offerAcross_some {texts : Text → Option Text} {r : Dict} {shape : String × String}
    {o : Offer} (h : offerAcross py texts r shape = some o) : holds r o.key ∧
      String.ofList o.quote = o.value ∧ (∃ text, sourceText texts r = some text ∧ o.quote <:+: text) ∧
      o.fact = [("field", .str o.field), ("value", .str o.value), ("role", .str "identifier"),
        ("owner", .str "self"), ("quote", .str (String.ofList o.quote)),
        ("source", r.get "_record_source")] := by
  unfold offerAcross at h
  split at h
  · rename_i value source got text
    split_ifs at h with refused
    obtain ⟨quote, found, rfl⟩ := Option.map_eq_some_iff.mp h
    rw [not_or, not_or, not_or] at refused
    obtain ⟨filled, -, -, code⟩ := refused
    -- a code has no blank, so it is quoted as it is
    have solid := not_space_of_wholeCode (Bool.not_eq_false _ ▸ code)
    have nonempty : value.toList ≠ [] := by
      intro none
      rw [none] at filled
      exact filled rfl
    have whole := literalQuoteSpan_of_not_space nonempty solid found
    refine ⟨got, ?_, ⟨source, text, literalQuoteSpan_infix found⟩, rfl⟩
    show String.ofList quote = value
    rw [whole, String.ofList_toList]
  · cases h

theorem offersAcross_lawful (shapes : List (String × String)) (texts : Text → Option Text) :
    Lawful (sourceText texts) (offersAcross py shapes texts) := by
  have made : ∀ r, ∀ o ∈ offersAcross py shapes texts r, annotated r = false ∧
      ∃ shape ∈ shapes, offerAcross py texts r shape = some o := by
    intro r o mem
    unfold offersAcross at mem
    split_ifs at mem with has
    · cases mem
    · exact ⟨Bool.eq_false_iff.mpr has, List.mem_filterMap.mp mem⟩
  refine ⟨fun r o mem => (made r o mem).1, ?_, ?_, ?_, ?_⟩
  · intro r o mem
    obtain ⟨-, shape, -, offered⟩ := made r o mem
    exact (offerAcross_some offered).1
  · intro r o mem
    obtain ⟨-, shape, -, offered⟩ := made r o mem
    rw [(offerAcross_some offered).2.2.2]
    rfl
  · intro r o mem
    obtain ⟨-, shape, -, offered⟩ := made r o mem
    rw [(offerAcross_some offered).2.2.2]
    exact ⟨rfl, rfl, rfl⟩
  · intro r o mem
    obtain ⟨-, shape, -, offered⟩ := made r o mem
    exact (offerAcross_some offered).2.2.1

theorem iterable_of {raises : Dict → Bool}
    (none : ∀ r, (factsOf r).isNone = true → raises r = true) (h : ¬ records.any raises = true) :
    ∀ r ∈ records, (factsOf r).isSome = true := by
  intro r mem
  rw [← Option.not_isNone, Bool.not_eq_true']
  refine Bool.eq_false_iff.mpr fun isNone => ?_
  exact h (List.any_eq_true.mpr ⟨r, mem, none r isNone⟩)

/-- **When completed identifiers are the records' own.**  Within one source: exactly if the first
identifier that the annotations leave to each bare record is no other record's value in that field,
and its quote shows it.  Across sources the quote always does. -/
theorem complete_identifier_facts_own_iff (py : Python) (records : List Dict) (source : Text)
    (texts : Text → Option Text) :
    (∀ out, completeIdentifierFacts py records source = some out →
      (OwnIdentifiers (fun _ => some source) records out ↔
        FirstAlone (offersWithin py (references records) source) (takenBy (references records)) records ∧
        FirstShown (offersWithin py (references records) source) (takenBy (references records))
          records)) ∧
    ∀ out, completeIdentifierFactsAcross py records texts = some out →
      (OwnIdentifiers (sourceText texts) records out ↔
        FirstAlone (offersAcross py (shapes py records) texts) (annotatedCodes py records)
          records) := by
  constructor
  · intro out completed
    unfold completeIdentifierFacts at completed
    split_ifs at completed with raises none
    all_goals
      have iterable := iterable_of (fun r isNone => Bool.or_eq_true_iff.mpr (.inl isNone)) raises
    · cases completed
      have nothing : ∀ r, offersWithin py (references records) source r = [] := by
        intro r
        unfold offersWithin
        rw [none, List.filterMap_nil, ite_self]
      rw [← completeFrom_own (offersWithin_lawful records source) iterable,
        completeFrom_nothing nothing]
    · cases completed
      exact completeFrom_own (offersWithin_lawful records source) iterable _
  · intro out completed
    have always : FirstShown (offersAcross py (shapes py records) texts)
        (annotatedCodes py records) records := by
      intro r _ o first
      have mem := List.mem_of_find?_eq_some first
      unfold offersAcross at mem
      split_ifs at mem
      · cases mem
      · obtain ⟨shape, -, offered⟩ := List.mem_filterMap.mp mem
        simp only [← (offerAcross_some offered).2.1, String.toList_ofList, List.infix_rfl]
    unfold completeIdentifierFactsAcross at completed
    split_ifs at completed with raises none
    · cases completed
      have nothing : ∀ r, offersAcross py (shapes py records) texts r = [] := by
        intro r
        unfold offersAcross shapes
        rw [none]
        exact ite_self _
      refine Iff.trans ?_ (and_iff_left always)
      rw [← completeFrom_own (offersAcross_lawful _ texts) (iterable_of (fun _ => id) raises),
        completeFrom_nothing nothing]
    · cases completed
      refine Iff.trans ?_ (and_iff_left always)
      exact completeFrom_own (offersAcross_lawful _ texts) (iterable_of (fun _ => id) raises) _

/-! ## One number, two records -/

theorem isAlphanum_range {c : Char} (h : c.isAlphanum = true) : 48 ≤ c.toNat ∧ c.toNat ≤ 122 := by
  simp only [Char.isAlphanum, Char.isAlpha, Char.isUpper, Char.isLower, Char.isDigit,
    UInt32.le_iff_toNat_le, ge_iff_le, Bool.or_eq_true, Bool.and_eq_true, decide_eq_true_eq,
    Bool.decide_and] at h
  have val : c.toNat = c.val.toNat := rfl
  rcases h with (⟨low, high⟩ | ⟨low, high⟩) | ⟨low, high⟩
  all_goals
    change _ ≤ c.val.toNat at low
    change c.val.toNat ≤ _ at high
    simp only [show ('A' : Char).val.toNat = 65 from rfl, show ('Z' : Char).val.toNat = 90 from rfl,
      show ('a' : Char).val.toNat = 97 from rfl, show ('z' : Char).val.toNat = 122 from rfl,
      show ('0' : Char).val.toNat = 48 from rfl, show ('9' : Char).val.toNat = 57 from rfl] at low high
    omega

theorem isAlphanum_of_isSpace {c : Char} (space : isSpace c = true) : c.isAlphanum = false := by
  refine Bool.eq_false_iff.mpr fun letter => ?_
  obtain ⟨low, high⟩ := isAlphanum_range letter
  simp only [isSpace, Bool.or_eq_true, decide_eq_true_eq, List.contains_eq_mem,
    List.mem_cons, List.not_mem_nil, or_false] at space
  omega

/-- Characters of ASCII; no text is a date. -/
def ascii : Python where
  alnum := Char.isAlphanum
  decimal c := if c.isDigit then some (c.toNat - 48) else none
  casefold := List.map Char.toLower
  isoDatetime _ := false
  isoTime _ := false
  alnum_space _ := isAlphanum_of_isSpace
  decimal_space c space := by
    have letter := isAlphanum_of_isSpace space
    unfold Char.isAlphanum at letter
    rw [Bool.or_eq_false_iff] at letter
    rw [letter.2]
    rfl

/-- The first record is annotated, the others are not; both are the same invoice. -/
def invoices : List Dict :=
  [[("number", .str "INV-0001"), ("_record_facts", .arr [.obj [("field", .str "number"),
      ("value", .str "INV-0001"), ("role", .str "identifier"), ("owner", .str "self"),
      ("quote", .str "INV-0001")]])],
    [("number", .str "INV-0002")], [("number", .str "INV-0002")]]

/-- The first of the two gets the number as its own. -/
theorem shared_number_completed : ¬ ∀ (py : Python) (records : List Dict) (source : Text) (out),
    completeIdentifierFacts py records source = some out →
      OwnIdentifiers (fun _ => some source) records out := by
  intro all
  have gets : (completeIdentifierFacts ascii invoices "INV-0001 INV-0002 INV-0002".toList).map
      (fun out => (out[1]?.bind factsOf).map List.length) = some (some 1) := by
    decide +kernel
  obtain ⟨out, completed, more⟩ := Option.map_eq_some_iff.mp gets
  obtain ⟨facts, got, one⟩ := Option.map_eq_some_iff.mp more
  obtain ⟨r', here, iter⟩ := Option.bind_eq_some_iff.mp got
  have own := all ascii invoices _ out completed
  obtain rfl | ⟨fact, -, field, value, -, -, -, -, -, -, holds, -, -, -, alone⟩ :=
    own.facts 1 [("number", .str "INV-0002")] r' rfl here
  · cases iter
    cases one
  · exact alone 2 [("number", .str "INV-0002")] (by decide) rfl holds

/-- With another layout of the blanks, the quote does not show the number. -/
example : literalQuoteSpan "No. INV 0002".toList "Invoice No. INV  0002".toList =
    some "No. INV  0002".toList ∧ ¬ "INV 0002".toList <:+: "No. INV  0002".toList := by
  decide +kernel

end Metnos.Records
