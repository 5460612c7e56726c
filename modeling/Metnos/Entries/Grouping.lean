import Metnos.Entries.GroupEntries
import Metnos.Lib.Placement

/-!
# Entries.Grouping — every item is in one record

The tables of the merge loop are a book of placements: an item goes to the record that its key leads
to.  What the records are written into them later does not touch the fields of their keys.
-/

namespace Metnos.Entries.GroupEntries

open Dynamic Placement
open Undo (Text isSpace strip)

variable (py : Library) (o : Options)

/-! ## The run as a book of placements -/

def keyOf (item : Json) : Option Key := (asDict item).bind fun d => lookupKey py d o.dedupKeys

def placeOf (t : Table) (item : Json) : ℕ :=
  match asDict item with
  | none => t.rows.length
  | some d => if o.dedupKeys.isNone then t.rows.length else (findPlace py o t d).getD t.rows.length

def moves : Table → List Json → List (Option Key × ℕ)
  | _, [] => []
  | t, x :: rest => (keyOf py o x, placeOf py o t x) :: moves (t.step py o x) rest

def Table.book (t : Table) : Book Key := ⟨t.rows.length, t.seen⟩

def places (items : List Json) : List ℕ := (moves py o Table.empty items).map Prod.snd

section
variable {py} {o} {t : Table} {x : Json} {d : Dict}

theorem uniqueBest_mem {scored : List (ℕ × ℕ)} {p : ℕ} (h : uniqueBest scored = some p) :
    p ∈ scored.map Prod.snd := by
  unfold uniqueBest at h
  dsimp only at h
  split at h
  · next s hs =>
    split at h
    · obtain rfl := Option.some.inj h
      have hmem : s ∈ scored.filter fun s => decide (s.1 = (scored.map Prod.fst).foldl max 0) := by
        rw [hs]
        exact List.mem_singleton_self s
      exact List.mem_map_of_mem (List.mem_filter.mp hmem).1
    · contradiction
  · contradiction

theorem crossPlace_lt {p : ℕ} (h : crossPlace py o t d = some p) : p < t.rows.length := by
  unfold crossPlace at h
  dsimp only at h
  split at h
  · contradiction
  · next key hkey =>
    split at h
    · contradiction
    · have hrow : ∀ c ∈ ((t.cross.filter fun c => decide (c.1 = key)).filterMap fun c =>
          t.rows[c.2]?.bind fun r =>
            if disjoint r.domains (domainsOf py o d) ∨
                ((r.domains.filter fun x => decide (x ∈ domainsOf py o d)).any fun x =>
                  decide (x ∈ o.reconcileWithin)) then some (c.2, r) else none),
          c.1 < t.rows.length := by
        intro c hc
        obtain ⟨e, -, he⟩ := List.mem_filterMap.mp hc
        obtain ⟨r, hr, hsome⟩ := Option.bind_eq_some_iff.mp he
        split at hsome
        · obtain rfl := Option.some.inj hsome
          exact (List.getElem?_eq_some_iff.mp hr).1
        · contradiction
      split at h
      · next c hc =>
        obtain rfl := Option.some.inj h
        refine hrow c ?_
        rw [hc]
        exact List.mem_singleton_self c
      · obtain ⟨s, hs, rfl⟩ := List.mem_map.mp (uniqueBest_mem h)
        obtain ⟨c, hc, rfl⟩ := List.mem_map.mp hs
        exact hrow c hc

theorem anchorPlace_lt {p : ℕ} (h : anchorPlace py o t d = some p) : p < t.rows.length := by
  unfold anchorPlace at h
  dsimp only at h
  split at h
  · contradiction
  · obtain ⟨s, hs, rfl⟩ := List.mem_map.mp (uniqueBest_mem h)
    obtain ⟨r, hr, rfl⟩ := List.mem_map.mp hs
    exact List.snd_lt_of_mem_zipIdx (List.mem_filter.mp hr).1

theorem findPlace_lt {p : ℕ} (ht : t.book.Sound) (h : findPlace py o t d = some p) :
    p < t.rows.length := by
  unfold findPlace at h
  obtain h | ⟨-, h⟩ := Option.or_eq_some_iff.mp h
  · obtain h | ⟨-, h⟩ := Option.or_eq_some_iff.mp h
    · obtain ⟨k, -, hp⟩ := Option.bind_eq_some_iff.mp h
      exact ht k p hp
    · exact crossPlace_lt h
  · exact anchorPlace_lt h

theorem findPlace_of_seen {k : Key} {p : ℕ} (hk : lookupKey py d o.dedupKeys = some k)
    (hp : t.seen.lookup k = some p) : findPlace py o t d = some p := by
  unfold findPlace
  rw [hk, Option.bind_some, hp]
  rfl

theorem fits (ht : t.book.Sound) : t.book.Fits (keyOf py o x) (placeOf py o t x) := by
  unfold keyOf placeOf
  cases hx : asDict x with
  | none => exact ⟨le_refl t.rows.length, fun k hk => nomatch hk⟩
  | some d =>
    dsimp only [Option.bind_some]
    by_cases hnone : o.dedupKeys.isNone
    · rw [if_pos hnone]
      refine ⟨le_refl t.rows.length, fun k hk => ?_⟩
      rw [Option.isNone_iff_eq_none.mp hnone] at hk
      contradiction
    · rw [if_neg hnone]
      constructor
      · cases hp : findPlace py o t d with
        | none => exact le_refl t.rows.length
        | some p => exact (findPlace_lt ht hp).le
      · intro k hk p hp
        rw [findPlace_of_seen hk hp]
        rfl

theorem remember_book (key : Option Key) (place : ℕ) :
    t.remember key place = t.book.remember key place := by
  cases key <;> rfl

theorem step_book (ht : t.book.Sound) :
    (t.step py o x).book = t.book.put (keyOf py o x) (placeOf py o t x) := by
  have hkeep : ∀ record, (t.keep record).book = t.book.put none t.rows.length := by
    intro record
    refine congrArg₂ Book.mk ?_ rfl
    show (t.rows ++ [_]).length = max t.rows.length (t.rows.length + 1)
    rw [List.length_append, List.length_singleton]
    omega
  show (t.take py o x).book = _
  unfold Table.take keyOf placeOf
  cases hx : asDict x with
  | none => exact hkeep _
  | some d =>
    dsimp only [Option.bind_some]
    by_cases hnone : o.dedupKeys.isNone
    · rw [if_pos hnone, if_pos hnone, Option.isNone_iff_eq_none.mp hnone]
      exact hkeep d
    · rw [if_neg hnone, if_neg hnone]
      cases hp : findPlace py o t d with
      | some p =>
        show (t.join py o d p).book = t.book.put (lookupKey py d o.dedupKeys) p
        refine congrArg₂ Book.mk ?_ (remember_book _ _)
        have hlt := findPlace_lt ht hp
        show (t.rows.modify p _).length = max t.rows.length (p + 1)
        rw [List.length_modify]
        omega
      | none =>
        show (t.start py o d).book = t.book.put (lookupKey py d o.dedupKeys) t.rows.length
        refine congrArg₂ Book.mk ?_ (remember_book _ _)
        show (t.rows ++ [_]).length = max t.rows.length (t.rows.length + 1)
        rw [List.length_append, List.length_singleton]
        omega

theorem runs : ∀ {items : List Json} {t : Table}, t.book.Sound →
    Runs t.book (moves py o t items) ∧
      (items.foldl (Table.step py o) t).book = t.book.after (moves py o t items)
  | [], _, _ => ⟨trivial, rfl⟩
  | x :: rest, t, ht => by
    have hbook := @step_book py o t x ht
    have hnext : (t.step py o x).book.Sound := hbook ▸ ht.put
    obtain ⟨hruns, hafter⟩ := @runs rest (t.step py o x) hnext
    rw [hbook] at hruns hafter
    exact ⟨⟨fits ht, hruns⟩, hafter⟩

theorem empty_sound : Table.empty.book.Sound := fun _ _ h => nomatch h

theorem mem_moves {z : Json} {r : ℕ} : ∀ {items : List Json} {t : Table} {n : ℕ},
    items[n]? = some z → ((moves py o t items).map Prod.snd)[n]? = some r →
      (keyOf py o z, r) ∈ moves py o t items
  | [], _, _, hz, _ => nomatch hz
  | x :: rest, t, 0, hz, hr => by
    obtain rfl := Option.some.inj hz
    obtain rfl := Option.some.inj hr
    exact List.mem_cons_self
  | x :: rest, t, n + 1, hz, hr => by
    refine List.mem_cons_of_mem _ ?_
    exact mem_moves (n := n) hz hr

theorem places_same {items : List Json} {m n p q : ℕ} {x y : Json} {k : Key}
    (hx : items[m]? = some x) (hy : items[n]? = some y) (hkx : keyOf py o x = some k)
    (hky : keyOf py o y = some k) (hp : (places py o items)[m]? = some p)
    (hq : (places py o items)[n]? = some q) : p = q := by
  have h1 := mem_moves hx hp
  have h2 := mem_moves hy hq
  rw [hkx] at h1
  rw [hky] at h2
  exact (runs empty_sound).1.same h1 h2

/-! ## What one item does -/

def asRecord (item : Json) : Dict := (asDict item).getD [("value", item)]

theorem take_cases (ht : t.book.Sound) :
    (∃ d, asDict x = some d ∧ placeOf py o t x < t.rows.length ∧
      t.take py o x = t.join py o d (placeOf py o t x)) ∨
    (placeOf py o t x = t.rows.length ∧ (t.take py o x).dedupes = t.dedupes ∧
      ∃ domains, (t.take py o x).rows = t.rows ++ [⟨asRecord x, domains⟩]) := by
  unfold Table.take placeOf asRecord
  cases hx : asDict x with
  | none => exact .inr ⟨rfl, rfl, _, rfl⟩
  | some d =>
    dsimp only
    by_cases hnone : o.dedupKeys.isNone
    · rw [if_pos hnone, if_pos hnone]
      exact .inr ⟨rfl, rfl, _, rfl⟩
    · rw [if_neg hnone, if_neg hnone]
      cases hp : findPlace py o t d with
      | some p => exact .inl ⟨d, rfl, findPlace_lt ht hp, rfl⟩
      | none => exact .inr ⟨rfl, rfl, _, rfl⟩

theorem gather_append (items : List Json) :
    gather py o (items ++ [x]) = (gather py o items).step py o x := by
  unfold gather
  rw [List.foldl_append]
  rfl

theorem moves_append : ∀ (items more : List Json) (t : Table), moves py o t (items ++ more) =
    moves py o t items ++ moves py o (items.foldl (Table.step py o) t) more
  | [], _, _ => rfl
  | x :: rest, more, t => congrArg (_ :: ·) (moves_append rest more (t.step py o x))

theorem places_append (items : List Json) : places py o (items ++ [x]) =
    places py o items ++ [placeOf py o (gather py o items) x] := by
  unfold places
  rw [moves_append, List.map_append]
  rfl

theorem length_places : ∀ items : List Json, (places py o items).length = items.length := by
  intro items
  induction items using List.reverseRecOn with
  | nil => rfl
  | append_singleton items x ih => rw [places_append, List.length_append, ih, List.length_append]; rfl

theorem gather_book (items : List Json) :
    (gather py o items).book = Book.empty.after (moves py o Table.empty items) :=
  (runs empty_sound).2

theorem gather_sound (items : List Json) : (gather py o items).book.Sound := by
  induction items using List.reverseRecOn with
  | nil => exact empty_sound
  | append_singleton items x ih =>
    rw [gather_append, step_book ih]
    exact ih.put

theorem lt_length_iff {items : List Json} {i : ℕ} :
    i < (gather py o items).rows.length ↔ i ∈ places py o items := by
  have hsize := (@runs py o items Table.empty empty_sound).1.size_iff (i := i)
  rw [show Table.empty.book = Book.empty from rfl, ← gather_book] at hsize
  exact hsize.trans (or_iff_right (Nat.not_lt_zero i))

theorem gather_counts (items : List Json) :
    (gather py o items).totalIn = items.length ∧
      (gather py o items).rows.length + (gather py o items).dedupes = items.length := by
  induction items using List.reverseRecOn with
  | nil => exact ⟨rfl, rfl⟩
  | append_singleton items x ih =>
    obtain ⟨htotal, hsum⟩ := ih
    rw [gather_append, List.length_append, List.length_singleton]
    have htake : ((gather py o items).take py o x).totalIn = (gather py o items).totalIn := by
      unfold Table.take
      repeat' split
      all_goals rfl
    refine ⟨congrArg (· + 1) htotal, ?_⟩
    show ((gather py o items).take py o x).rows.length + ((gather py o items).take py o x).dedupes = _
    obtain ⟨d, -, -, hjoin⟩ | ⟨-, hdedupes, domains, hrows⟩ := take_cases (gather_sound items) (x := x)
    · rw [hjoin]
      show ((gather py o items).rows.modify _ _).length + ((gather py o items).dedupes + 1) = _
      rw [List.length_modify]
      omega
    · rw [hrows, hdedupes, List.length_append, List.length_singleton]
      omega

/-! ## Fields that stay -/

/-- The fields that are written when records are merged and checked. -/
def Options.written (o : Options) : List String :=
  o.mergeFields ++ evidenceFields o ++ [o.conflictField, "_conflict_count"] ++ o.matchField.toList

/-- The dictionaries agree on all other fields. -/
def Agree (o : Options) (d e : Dict) : Prop := ∀ f ∉ o.written, e.get f = d.get f

variable {e : Dict}

theorem Agree.refl (d : Dict) : Agree o d d := fun _ _ => rfl

theorem Agree.trans {c : Dict} (hcd : Agree o c d) (hde : Agree o d e) : Agree o c e :=
  fun f hf => (hde f hf).trans (hcd f hf)

theorem Agree.set {f : String} {v : Json} (hf : f ∈ o.written) (h : Agree o d e) :
    Agree o d (e.set f v) := by
  intro g hg
  have hne : g ≠ f := fun h => hg (h ▸ hf)
  unfold Dict.get
  rw [Dict.get?_set, if_neg hne]
  exact h g hg

theorem agree_foldl {α : Type} {f : Dict → α → Dict} {l : List α}
    (hf : ∀ e, ∀ a ∈ l, Agree o e (f e a)) : Agree o d (l.foldl f d) := by
  induction l generalizing d with
  | nil => exact Agree.refl d
  | cons a l ih =>
    have hfirst := hf d a List.mem_cons_self
    exact hfirst.trans (ih fun e b hb => hf e b (List.mem_cons_of_mem a hb))

theorem conflictField_mem : o.conflictField ∈ o.written := by simp [Options.written]

theorem conflictCount_mem : "_conflict_count" ∈ o.written := by simp [Options.written]

theorem note_agree {l : List Text} : Agree o e (note o e l) := by
  unfold note
  split
  · exact Agree.refl e
  · exact ((Agree.refl e).set conflictField_mem).set conflictCount_mem

theorem appendConflict_agree {text : Text} : Agree o e (appendConflict py o e text).1 := by
  unfold appendConflict
  dsimp only
  split
  · exact Agree.refl e
  · exact note_agree

theorem mergeInto_agree : Agree o e (mergeInto py o e d).1 := by
  have hmerge : Agree o e (mergeFieldsInto py o e d) := by
    refine agree_foldl fun e' f hf => ?_
    dsimp only
    split
    · exact Agree.refl e'
    · refine (Agree.refl e').set ?_
      simp [Options.written, hf]
  have hevidence : Agree o (mergeFieldsInto py o e d)
      (evidenceInto py o (mergeFieldsInto py o e d) d) := by
    refine agree_foldl fun e' f hf => ?_
    dsimp only
    split
    · exact Agree.refl e'
    · refine (Agree.refl e').set ?_
      simp [Options.written, hf]
  exact (hmerge.trans hevidence).trans note_agree

theorem requireAll_agree {r : Row} : Agree o r.record (requireAll py o r).1.record := by
  have hfold : ∀ (l : List String) (s : Dict × ℕ),
      Agree o s.1 (l.foldl (requireField py o) s).1 := by
    intro l
    induction l with
    | nil => exact fun s => Agree.refl s.1
    | cons f l ih =>
      intro s
      refine Agree.trans ?_ (ih (requireField py o s f))
      unfold requireField
      split
      · exact appendConflict_agree
      · exact Agree.refl s.1
  exact hfold _ _

/-! ## First items -/

theorem gather_rows : ∀ (items : List Json) {i : ℕ} {r : Row},
    (gather py o items).rows[i]? = some r →
      ∃ x, items[(places py o items).idxOf i]? = some x ∧ Agree o (asRecord x) r.record := by
  intro items
  induction items using List.reverseRecOn with
  | nil => exact fun h => nomatch h
  | append_singleton items x ih =>
    intro i r hr
    have hlength : (places py o items).length = items.length := length_places items
    -- the first item of an earlier record is the same as before
    have hold : ∀ {r' : Row}, (gather py o items).rows[i]? = some r' → Agree o r'.record r.record →
        ∃ y, (items ++ [x])[(places py o (items ++ [x])).idxOf i]? = some y ∧
          Agree o (asRecord y) r.record := by
      intro r' hr' hagree
      obtain ⟨y, hy, hfirst⟩ := ih hr'
      have hmem : i ∈ places py o items := lt_length_iff.mp (List.getElem?_eq_some_iff.mp hr').1
      refine ⟨y, ?_, hfirst.trans hagree⟩
      rw [places_append, List.idxOf_append_of_mem hmem]
      exact (List.getElem?_append_left (List.getElem?_eq_some_iff.mp hy).1).trans hy
    rw [gather_append] at hr
    change ((gather py o items).take py o x).rows[i]? = some r at hr
    obtain ⟨d, -, -, hjoin⟩ | ⟨hplace, -, domains, hrows⟩ := take_cases (gather_sound items) (x := x)
    · rw [hjoin] at hr
      change ((gather py o items).rows.modify _ _)[i]? = some r at hr
      rw [List.getElem?_modify, Option.map_eq_map, Option.map_eq_some_iff] at hr
      obtain ⟨r', hr', rfl⟩ := hr
      refine hold hr' ?_
      split
      · exact mergeInto_agree
      · exact Agree.refl r'.record
    · rw [hrows, List.getElem?_append] at hr
      split at hr
      · exact hold hr (Agree.refl r.record)
      · next hlt =>
        have hi : i = (gather py o items).rows.length := by
          have := (List.getElem?_eq_some_iff.mp hr).1
          rw [List.length_singleton] at this
          omega
        subst hi
        rw [Nat.sub_self] at hr
        obtain rfl := Option.some.inj hr
        have hnot : (gather py o items).rows.length ∉ places py o items :=
          fun hmem => hlt (lt_length_iff.mpr hmem)
        refine ⟨x, ?_, Agree.refl (asRecord x)⟩
        rw [places_append, List.idxOf_append_of_notMem hnot, hplace, List.idxOf_cons_self, hlength,
          Nat.add_zero, List.getElem?_concat_length]

/-! ## The passes -/

/-- The records are the same ones, and the counts of items are the same. -/
structure Keeps (o : Options) (t t' : Table) : Prop where
  size : t'.rows.length = t.rows.length
  rows : ∀ (i : ℕ) r', t'.rows[i]? = some r' →
    ∃ r, t.rows[i]? = some r ∧ Agree o r.record r'.record
  totalIn : t'.totalIn = t.totalIn
  dedupes : t'.dedupes = t.dedupes

theorem Keeps.refl (t : Table) : Keeps o t t :=
  ⟨rfl, fun _ r hr => ⟨r, hr, Agree.refl r.record⟩, rfl, rfl⟩

theorem Keeps.trans {t t' t'' : Table} (h : Keeps o t t') (h' : Keeps o t' t'') : Keeps o t t'' := by
  refine ⟨h'.size.trans h.size, ?_, h'.totalIn.trans h.totalIn, h'.dedupes.trans h.dedupes⟩
  intro i r'' hr''
  obtain ⟨r', hr', hagree'⟩ := h'.rows i r'' hr''
  obtain ⟨r, hr, hagree⟩ := h.rows i r' hr'
  exact ⟨r, hr, hagree.trans hagree'⟩

theorem keeps_foldl {α : Type} {f : Table → α → Table} {l : List α}
    (hf : ∀ t a, Keeps o t (f t a)) : Keeps o t (l.foldl f t) := by
  induction l generalizing t with
  | nil => exact Keeps.refl t
  | cons a l ih => exact (hf t a).trans ih

theorem keeps_map {f : Row → Row} {conflicts : ℕ} (hf : ∀ r, Agree o r.record (f r).record) :
    Keeps o t { t with rows := t.rows.map f, conflicts := conflicts } := by
  refine ⟨List.length_map f, ?_, rfl, rfl⟩
  intro i r' hr'
  obtain ⟨r, hr, rfl⟩ := List.getElem?_map .. ▸ hr' |> Option.map_eq_some_iff.mp
  exact ⟨r, hr, hf r⟩

theorem completeness_keeps : Keeps o t (completeness py o t) := by
  unfold completeness
  split
  · exact Keeps.refl t
  · exact keeps_map fun r => requireAll_agree

theorem noteAt_keeps {place : ℕ} {text : Text} : Keeps o t (noteAt py o t place text) := by
  unfold noteAt
  split
  · exact Keeps.refl t
  · next r hr =>
    refine ⟨List.length_set, ?_, rfl, rfl⟩
    intro i r' hr'
    change (t.rows.set place _)[i]? = some r' at hr'
    rw [List.getElem?_set] at hr'
    split at hr'
    · next hi =>
      subst hi
      split at hr'
      · obtain rfl := Option.some.inj hr'
        exact ⟨r, hr, appendConflict_agree⟩
      · contradiction
    · exact ⟨r', hr', Agree.refl r'.record⟩

theorem unmatched_keeps : Keeps o t (unmatched py o t) := by
  unfold unmatched
  split
  · exact Keeps.refl t
  · refine keeps_foldl fun t bucket => ?_
    unfold compareBucket
    split
    · refine keeps_foldl fun t field => ?_
      unfold compareField
      split
      · split
        · exact Keeps.refl t
        · exact noteAt_keeps.trans noteAt_keeps
      · exact Keeps.refl t
    · exact Keeps.refl t

theorem labelled_keeps : Keeps o t (labelled py o t) := by
  unfold labelled
  split
  · exact Keeps.refl t
  · next field hfield =>
    refine keeps_map fun r => (Agree.refl r.record).set ?_
    simp [Options.written, hfield]

theorem final_keeps (items : List Json) : Keeps o (gather py o items) (final py o items) :=
  (completeness_keeps.trans unmatched_keeps).trans labelled_keeps

end

/-! ## Groups -/

/-- The fields of the key are none of those that the options name for writing. -/
structure Apart (o : Options) : Prop where
  merged : ∀ f ∈ o.dedupKeys.getD [], f ∉ o.mergeFields
  conflict : o.conflictField ∉ o.dedupKeys.getD []
  label : ∀ f ∈ o.dedupKeys.getD [], o.matchField ≠ some f
  anchor : ∀ f ∈ o.dedupKeys.getD [], o.anchorField ≠ some f
  anchorMatch : ∀ f ∈ o.dedupKeys.getD [], f ∉ o.anchorMatchFields

/-- The place among the items of the first one of a record. -/
def firstOf (items : List Json) (i : ℕ) : ℕ := (places py o items).idxOf i

/-- The item is merged into the record at the place. -/
def MergedInto (items : List Json) (n p : ℕ) : Prop :=
  ∃ y d, items[n]? = some y ∧ asDict y = some d ∧
    (gather py o (items.take n)).take py o y = (gather py o (items.take n)).join py o d p

/-- **Grouping without loss**: the records that are returned, by their numbers. -/
structure Groups (items : List Json) (numbers : List ℕ) (records : List Dict) (out : Dict) :
    Prop where
  entries : out.get "entries" = .arr (records.map .obj)
  counts : ∃ dedupes dropped : ℕ, out.get "dedupes" = .int dedupes ∧
    out.get "dropped_unmatched" = .int dropped ∧ out.get "total_in" = .int items.length ∧
    records.length + dedupes + dropped = items.length
  /-- Every record comes from its first item. -/
  origin : List.Forall₂ (fun i r => ∃ x, items[firstOf py o items i]? = some x ∧
    Agree o (asRecord x) r) numbers records
  order : numbers.Pairwise fun i j => firstOf py o items i < firstOf py o items j
  /-- Records of dictionaries differ in their keys. -/
  distinct : ∀ (a b : ℕ) i j x y r r' k, numbers[a]? = some i → numbers[b]? = some j →
    items[firstOf py o items i]? = some x → items[firstOf py o items j]? = some y →
    (asDict x).isSome → (asDict y).isSome → records[a]? = some r → records[b]? = some r' →
    lookupKey py r o.dedupKeys = some k → lookupKey py r' o.dedupKeys = some k → a = b
  /-- A key that an item had before leads to the record of that item. -/
  same : ∀ (m n : ℕ) x y k, m < n → items[m]? = some x → items[n]? = some y →
    keyOf py o x = some k → keyOf py o y = some k →
    ∃ p, (places py o items)[m]? = some p ∧ (places py o items)[n]? = some p ∧
      MergedInto py o items n p

section
variable {py} {o} {items : List Json}

theorem Apart.notMem (h : Apart o) (hcount : "_conflict_count" ∉ o.dedupKeys.getD []) {f : String}
    (hf : f ∈ o.dedupKeys.getD []) : f ∉ o.written := by
  have hconflict : f ≠ o.conflictField := fun heq => h.conflict (heq ▸ hf)
  have hnumber : f ≠ "_conflict_count" := fun heq => hcount (heq ▸ hf)
  have hevidence : f ∉ evidenceFields o := by
    unfold evidenceFields
    cases ha : o.anchorField with
    | none => exact List.not_mem_nil
    | some a =>
      have hne : f ≠ a := fun heq => h.anchor f hf (heq ▸ ha)
      have hmatch := h.anchorMatch f hf
      simp [hne, hmatch]
  have hlabel := h.label f hf
  simp [Options.written, h.merged f hf, hconflict, hnumber, hevidence, hlabel]

theorem mapM_congr {α β : Type} {f g : α → Option β} {l : List α} (h : ∀ a ∈ l, f a = g a) :
    l.mapM f = l.mapM g := by
  induction l with
  | nil => rfl
  | cons a l ih =>
    rw [List.mapM_cons, List.mapM_cons, h a List.mem_cons_self,
      ih fun b hb => h b (List.mem_cons_of_mem a hb)]

theorem lookupKey_agree {d e : Dict} (hfields : ∀ f ∈ o.dedupKeys.getD [], f ∉ o.written)
    (h : Agree o d e) : lookupKey py e o.dedupKeys = lookupKey py d o.dedupKeys := by
  unfold lookupKey
  cases hk : o.dedupKeys with
  | none => rfl
  | some l =>
    rw [hk] at hfields
    refine mapM_congr fun f hf => ?_
    rw [h f (hfields f hf)]

theorem Apart.of_unlabelled (hlabel : o.matchField = none) (hanchor : o.anchorField = none)
    (hmatch : o.anchorMatchFields = []) (hmerged : ∀ f ∈ o.dedupKeys.getD [], f ∉ o.mergeFields)
    (hconflict : o.conflictField ∉ o.dedupKeys.getD []) : Apart o := by
  refine ⟨hmerged, hconflict, fun f _ => ?_, fun f _ => ?_, fun f _ => ?_⟩
  · rw [hlabel]
    exact (Option.some_ne_none f).symm
  · rw [hanchor]
    exact (Option.some_ne_none f).symm
  · rw [hmatch]
    exact List.not_mem_nil

theorem length_inputs (lists : List Json) :
    (inputs py o lists).length = ((lists.filterMap asList).map List.length).sum := by
  unfold inputs
  rw [List.length_flatMap]
  congr 1
  refine List.map_congr_left fun sub _ => ?_
  split
  · show ((sub.zipIdx.map _).length) = _
    rw [List.length_map, List.length_zipIdx]
  · rw [List.length_map]

def isReturned (py : Library) (o : Options) (r : Row) : Bool :=
  decide (o.dropUnmatched = []) || !isDropped py o r

/-- The records that are returned, with their numbers. -/
def numbered (py : Library) (o : Options) (t : Table) : List (Row × ℕ) :=
  t.rows.zipIdx.filter fun r => isReturned py o r.1

theorem returned_eq {t : Table} : returned py o t = (numbered py o t).map Prod.fst := by
  have hfilter : returned py o t = t.rows.filter (isReturned py o) := by
    unfold returned
    split
    · next h => exact (List.filter_eq_self.mpr fun r _ => by simp [isReturned, h]).symm
    · next h => exact List.filter_congr fun r _ => by simp [isReturned, h]
  rw [hfilter]
  conv_lhs => rw [← List.zipIdx_map_fst 0 t.rows]
  rw [List.filter_map]
  rfl

theorem final_cases {r : Row × ℕ} (hr : r ∈ numbered py o (final py o items)) :
    ∃ x, items[firstOf py o items r.2]? = some x ∧ Agree o (asRecord x) r.1.record ∧
      r.2 ∈ places py o items := by
  have hrow : (final py o items).rows[r.2]? = some r.1 :=
    List.mk_mem_zipIdx_iff_getElem?.mp (List.mem_filter.mp hr).1
  obtain ⟨row, hgathered, hkeeps⟩ := (final_keeps items).rows r.2 r.1 hrow
  obtain ⟨x, hx, hfirst⟩ := gather_rows items hgathered
  exact ⟨x, hx, hfirst.trans hkeeps, lt_length_iff.mp (List.getElem?_eq_some_iff.mp hgathered).1⟩

theorem numbered_sorted (t : Table) : ((numbered py o t).map Prod.snd).Pairwise (· < ·) := by
  have hsub : ((numbered py o t).map Prod.snd).Sublist (t.rows.zipIdx.map Prod.snd) :=
    List.filter_sublist.map Prod.snd
  rw [List.zipIdx_map_snd] at hsub
  exact List.Pairwise.sublist hsub (List.pairwise_lt_range' 1)

theorem split_at {n : ℕ} {y : Json} (hy : items[n]? = some y) :
    items = items.take n ++ y :: items.drop (n + 1) ∧ (items.take n).length = n := by
  obtain ⟨hn, hget⟩ := List.getElem?_eq_some_iff.mp hy
  refine ⟨?_, List.length_take_of_le hn.le⟩
  rw [← hget, ← List.drop_eq_getElem_cons hn, List.take_append_drop]

theorem places_split {n : ℕ} {y : Json} (hy : items[n]? = some y) : ∃ rest, places py o items =
    places py o (items.take n) ++ placeOf py o (gather py o (items.take n)) y :: rest := by
  obtain ⟨hsplit, -⟩ := split_at hy
  refine ⟨(moves py o ((gather py o (items.take n)).step py o y) (items.drop (n + 1))).map Prod.snd, ?_⟩
  conv_lhs => rw [hsplit]
  unfold places
  rw [moves_append, List.map_append]
  rfl

theorem merged_same {m n : ℕ} {x y : Json} {k : Key} (hmn : m < n) (hx : items[m]? = some x)
    (hy : items[n]? = some y) (hkx : keyOf py o x = some k) (hky : keyOf py o y = some k) :
    ∃ p, (places py o items)[m]? = some p ∧ (places py o items)[n]? = some p ∧
      MergedInto py o items n p := by
  obtain ⟨rest, hplaces⟩ := @places_split py o items n y hy
  have hlength : (places py o (items.take n)).length = n :=
    (length_places _).trans (split_at hy).2
  have hm : m < (places py o (items.take n)).length := by omega
  have hn : (places py o items)[n]? = some (placeOf py o (gather py o (items.take n)) y) := by
    rw [hplaces, List.getElem?_append_right hlength.le, hlength, Nat.sub_self]
    rfl
  have hp : (places py o items)[m]? = some (places py o (items.take n))[m] := by
    rw [hplaces, List.getElem?_append_left hm, List.getElem?_eq_getElem hm]
  have hsame := places_same hx hy hkx hky hp hn
  rw [hsame] at hp
  refine ⟨_, hp, hn, y, ?_⟩
  -- the record of the earlier item is there already
  have hthere : placeOf py o (gather py o (items.take n)) y < (gather py o (items.take n)).rows.length :=
    lt_length_iff.mpr (hsame ▸ List.getElem_mem hm)
  obtain ⟨d, hd, -, hjoin⟩ | ⟨hnew, -⟩ := take_cases (gather_sound (items.take n)) (x := y)
  · exact ⟨d, hy, hd, hjoin⟩
  · omega

theorem counts_hold : ((numbered py o (final py o items)).length + (final py o items).dedupes +
    ((final py o items).rows.length - (numbered py o (final py o items)).length) = items.length) ∧
      (final py o items).totalIn = items.length := by
  have hkeeps := @final_keeps py o items
  obtain ⟨htotal, hsum⟩ := @gather_counts py o items
  have hkept : (numbered py o (final py o items)).length ≤ (final py o items).rows.length := by
    refine (List.length_filter_le ..).trans_eq ?_
    rw [List.length_zipIdx]
  rw [hkeeps.size] at hkept ⊢
  rw [hkeeps.dedupes, hkeeps.totalIn]
  exact ⟨by omega, htotal⟩

theorem same_key {r r' : Row × ℕ} {x y : Json} {k : Key}
    (hfields : ∀ f ∈ o.dedupKeys.getD [], f ∉ o.written)
    (hr : r ∈ numbered py o (final py o items)) (hr' : r' ∈ numbered py o (final py o items))
    (hx : items[firstOf py o items r.2]? = some x) (hy : items[firstOf py o items r'.2]? = some y)
    (hdx : (asDict x).isSome) (hdy : (asDict y).isSome)
    (hk : lookupKey py r.1.record o.dedupKeys = some k)
    (hk' : lookupKey py r'.1.record o.dedupKeys = some k) : r.2 = r'.2 := by
  have hkey : ∀ {r : Row × ℕ} {x : Json}, r ∈ numbered py o (final py o items) →
      items[firstOf py o items r.2]? = some x → (asDict x).isSome →
      lookupKey py r.1.record o.dedupKeys = some k →
      keyOf py o x = some k ∧ (places py o items)[firstOf py o items r.2]? = some r.2 := by
    intro r x hr hx hd hk
    obtain ⟨x', hx', hagree, hmem⟩ := final_cases hr
    obtain rfl := Option.some.inj (hx.symm.trans hx')
    obtain ⟨d, hd⟩ := Option.isSome_iff_exists.mp hd
    unfold asRecord at hagree
    rw [hd] at hagree
    constructor
    · rw [keyOf, hd, Option.bind_some, ← hk]
      exact (lookupKey_agree hfields hagree).symm
    · exact List.getElem?_idxOf hmem
  obtain ⟨hkx, hp⟩ := hkey hr hx hdx hk
  obtain ⟨hky, hq⟩ := hkey hr' hy hdy hk'
  exact places_same hx hy hkx hky hp hq

/-- **Grouping deduplicates without loss.** -/
theorem invoke_groups {lists : List Json} {args out : Dict} (hlists : listsOf args = .arr lists)
    (hoptions : options py args = some (.ok o)) (hapart : Apart o)
    (hcount : "_conflict_count" ∉ o.dedupKeys.getD []) (hout : invoke py args = some out) :
    ∃ items numbers records, items = (inputs py o lists).map Prod.fst ∧
      items.length = ((lists.filterMap asList).map List.length).sum ∧
      Groups py o items numbers records out := by
  have hreport : out = report py o lists := by
    unfold invoke at hout
    rw [hlists] at hout
    dsimp only at hout
    rw [hoptions] at hout
    exact (Option.some.inj hout).symm
  generalize hitems : (inputs py o lists).map Prod.fst = items
  have hlength : items.length = ((lists.filterMap asList).map List.length).sum := by
    rw [← hitems, List.length_map, length_inputs]
  have hfields : ∀ f ∈ o.dedupKeys.getD [], f ∉ o.written := fun f hf => hapart.notMem hcount hf
  obtain ⟨hcounts, htotal⟩ := @counts_hold py o items
  have hreturned := @returned_eq py o (final py o items)
  refine ⟨items, (numbered py o (final py o items)).map Prod.snd,
    (numbered py o (final py o items)).map fun r => r.1.record, rfl, hlength,
    ?_, ?_, ?_, ?_, ?_, fun m n x y k => merged_same⟩
  · rw [hreport]
    unfold report
    dsimp only
    rw [hitems, hreturned, List.map_map, List.map_map]
    rfl
  · rw [hreport]
    unfold report
    dsimp only
    rw [hitems, hreturned]
    refine ⟨(final py o items).dedupes, _, rfl, rfl, ?_, ?_⟩
    · rw [← htotal]
      rfl
    · rw [List.length_map, List.length_map]
      exact hcounts
  · rw [List.forall₂_map_left_iff, List.forall₂_map_right_iff, List.forall₂_same]
    intro r hr
    obtain ⟨x, hx, hagree, -⟩ := final_cases hr
    exact ⟨x, hx, hagree⟩
  · refine List.Pairwise.imp_of_mem ?_ (numbered_sorted (final py o items))
    intro i j _ hj hij
    obtain ⟨r, hr, rfl⟩ := List.mem_map.mp hj
    obtain ⟨-, -, -, hmem⟩ := final_cases hr
    exact (@runs py o items Table.empty empty_sound).1.idxOf_lt hij hmem
  · intro a b i j x y r r' k hi hj hx hy hdx hdy hr hr' hk hk'
    rw [List.getElem?_map, Option.map_eq_some_iff] at hi hj hr hr'
    obtain ⟨s, hs, rfl⟩ := hi
    obtain ⟨s', hs', rfl⟩ := hj
    obtain ⟨_, hrow, rfl⟩ := hr
    obtain ⟨_, hrow', rfl⟩ := hr'
    obtain rfl := Option.some.inj (hs.symm.trans hrow)
    obtain rfl := Option.some.inj (hs'.symm.trans hrow')
    have heq := same_key hfields (List.mem_of_getElem? hs) (List.mem_of_getElem? hs') hx hy hdx hdy
      hk hk'
    have hnodup : ((numbered py o (final py o items)).map Prod.snd).Nodup :=
      (numbered_sorted _).imp fun h => h.ne
    have ha : ((numbered py o (final py o items)).map Prod.snd)[a]? = some s.2 := by
      rw [List.getElem?_map, hs]; rfl
    have hb : ((numbered py o (final py o items)).map Prod.snd)[b]? = some s.2 := by
      rw [List.getElem?_map, hs', heq]; rfl
    obtain ⟨hlt, -⟩ := List.getElem?_eq_some_iff.mp ha
    exact (List.getElem?_inj hlt hnodup).mp (ha.trans hb.symm)

end

def plain : Library where
  casefold t := t.map Char.toLower
  repr v := if isNull v then "None".toList else []
  float _ := none
  msg name _ := name
  whole _ := none
  nfkd := id
  combining _ := false

def page (url tag : String) : Json := .obj [("url", .str url), ("tag", .str tag)]

def pageArgs : Dict :=
  [("entries_lists", .arr [.arr [page "a" "x", page "b" "y"], .arr [page "A" "z"]]),
    ("merge_fields", .arr [.str "tag"])]

theorem pageOptions : ∃ o, options plain pageArgs = some (.ok o) ∧ Apart o ∧
    "_conflict_count" ∉ o.dedupKeys.getD [] := by
  refine ⟨_, rfl, .of_unlabelled rfl rfl rfl ?_ ?_, ?_⟩
  · show ∀ f ∈ ["url"], f ∉ ["tag"]
    decide
  · show "conflitto" ∉ ["url"]
    decide
  · show "_conflict_count" ∉ ["url"]
    decide

theorem pages_grouped : ∃ o out items numbers records, options plain pageArgs = some (.ok o) ∧
    out.get "entries" = .arr [page "a" "x; z", page "b" "y"] ∧ items.length = 3 ∧
      Groups plain o items numbers records out := by
  obtain ⟨o, hoptions, hapart, hcount⟩ := pageOptions
  obtain ⟨out, hout, hentries⟩ : ∃ out, invoke plain pageArgs = some out ∧
      out.get "entries" = .arr [page "a" "x; z", page "b" "y"] := ⟨_, rfl, rfl⟩
  obtain ⟨items, numbers, records, -, hlength, hgroups⟩ :=
    invoke_groups (o := o) rfl hoptions hapart hcount hout
  exact ⟨o, out, items, numbers, records, hoptions, hentries, hlength, hgroups⟩

/-! ## Keys that are written -/

/-- Two records that are returned have one complete key. -/
def Twice (py : Library) (args : Dict) : Prop :=
  ∃ o out r r' k, options py args = some (.ok o) ∧ Apart o ∧ invoke py args = some out ∧
    out.get "entries" = .arr [.obj r, .obj r'] ∧ lookupKey py r o.dedupKeys = some k ∧
      lookupKey py r' o.dedupKeys = some k

def textArgs : Dict :=
  [("entries_lists", .arr [.arr [.str "a", .str "a"]]), ("dedup_key", .str "value")]

def counted (n : ℤ) : Json := .obj [("dominio", .str "email"), ("_conflict_count", .int n)]

/-- The key is the number of conflicts, and both records lack a field. -/
def countArgs : Dict :=
  [("entries", .arr [counted 1, counted 2]), ("dedup_key", .str "_conflict_count"),
    ("required_fields_by_domain", .obj [("email", .arr [.str "stato"])])]

theorem key_written_twice : Twice plain textArgs ∧ Twice plain countArgs := by
  constructor
  · refine ⟨_, _, _, _, _, rfl, .of_unlabelled rfl rfl rfl ?_ ?_, rfl, rfl, rfl, rfl⟩
    · exact fun _ _ => List.not_mem_nil
    · show "conflitto" ∉ ["value"]
      decide
  · refine ⟨_, _, _, _, _, rfl, .of_unlabelled rfl rfl rfl ?_ ?_, rfl, rfl, rfl, rfl⟩
    · exact fun _ _ => List.not_mem_nil
    · show "conflitto" ∉ ["_conflict_count"]
      decide

end Metnos.Entries.GroupEntries
