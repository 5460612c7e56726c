import Mathlib.Data.List.Basic
import Mathlib.Data.Option.Basic

/-!
# Relational — tables with composite foreign keys and cascading deletions

The rows of a database belong to tables and have cells; an absent cell is null.  A deletion takes the
tables in the order of the schema, parents before children: a row goes if it is hit, or if a foreign
key that cascades refers it to a row that went.  Guards can forbid a deletion, and at the end every
foreign key must refer to a row that is left.

Where every foreign key stays with one owner, and every table hangs on the root, deleting the rows of
an owner from the root deletes all of the owner's rows and no other ones (`deleteRows_owner`).
-/

namespace Relational

variable {T : Type} [DecidableEq T]

structure Row (T : Type) where
  table : T
  cells : List (String × String)
deriving DecidableEq

def Row.cell (r : Row T) (column : String) : Option String := r.cells.lookup column

/-- `FOREIGN KEY (columns) REFERENCES parent(keys)`, with `ON DELETE CASCADE` or without. -/
structure ForeignKey (T : Type) where
  child : T
  columns : List String
  parent : T
  keys : List String
  cascade : Bool

/-- What a row refers to; with a null it refers to nothing. -/
def ForeignKey.target (fk : ForeignKey T) (r : Row T) : Option (List String) :=
  fk.columns.mapM r.cell

def ForeignKey.refers (fk : ForeignKey T) (r p : Row T) : Bool :=
  r.table = fk.child && p.table = fk.parent && (fk.target r).isSome &&
    fk.target r = fk.keys.mapM p.cell

/-- A guard of a deletion.  It only blocks while a row of the same owner is left in a table that it
needs. -/
structure DeleteGuard (T : Type) (owner : String) where
  table : T
  blocks : Row T → List (Row T) → Bool
  needs : T
  spec : ∀ r left, blocks r left = true →
    ∃ x ∈ left, x.table = needs ∧ x.cell owner = r.cell owner

/-- A schema; `order` has parents before children. -/
structure Schema (T : Type) where
  root : T
  owner : String
  order : List T
  foreignKeys : List (ForeignKey T)
  notNull : T → List String
  guards : List (DeleteGuard T owner)

namespace Schema

variable (S : Schema T)

/-! ## Deletions -/

/-- Every row refers to rows that are there. -/
def satisfied (rows : List (Row T)) : Bool :=
  rows.all fun r => S.foreignKeys.all fun fk =>
    !(r.table = fk.child && (fk.target r).isSome) || rows.any (fk.refers r)

/-- The rows of a table that go, after those of the tables before. -/
def goes (rows : List (Row T)) (hit gone : Row T → Bool) (t : T) (r : Row T) : Bool :=
  r.table = t && (hit r || S.foreignKeys.any fun fk =>
    fk.cascade && rows.any fun p => gone p && fk.refers r p)

def round (rows : List (Row T)) (hit gone : Row T → Bool) (t : T) : Option (Row T → Bool) :=
  let left := rows.filter fun p => !gone p
  if rows.any fun r => S.goes rows hit gone t r && S.guards.any fun g =>
      g.table = t && g.blocks r left then none
  else some fun r => gone r || S.goes rows hit gone t r

/-- `DELETE`; a guard or a foreign key that is left without its row makes it fail. -/
def deleteRows (rows : List (Row T)) (hit : Row T → Bool) : Option (List (Row T)) :=
  (S.order.foldlM (S.round rows hit) fun _ => false).bind fun gone =>
    let left := rows.filter fun r => !gone r
    if S.satisfied left then some left else none

/-! ## Owners -/

def ownedBy (o : String) (r : Row T) : Bool := r.cell S.owner = some o

/-- `DELETE FROM root WHERE owner = o` -/
def ownedRoot (o : String) (r : Row T) : Bool := r.table = S.root && S.ownedBy o r

/-- A database that the schema admits. -/
structure Valid (rows : List (Row T)) : Prop where
  satisfied : S.satisfied rows = true
  notNull : ∀ r ∈ rows, ∀ c ∈ S.notNull r.table, (r.cell c).isSome = true

/-- Every foreign key starts with the owner on both sides, and its table is in the order. -/
def keepsOwner : Bool :=
  S.foreignKeys.all fun fk => fk.columns.head? = some S.owner && fk.keys.head? = some S.owner &&
    fk.child ∈ S.order

/-- The table is the root, or has a foreign key that cascades, has no nulls and refers to a table
before. -/
def hangs (before : List T) (t : T) : Bool :=
  t = S.root || S.foreignKeys.any fun fk => fk.cascade && fk.child = t && fk.parent ∈ before &&
    fk.columns.all fun c => c ∈ S.notNull t

/-- From the root on, every table hangs on one before, and its guards need rows of one before. -/
def anchoredFrom : List T → List T → Bool
  | _, [] => true
  | before, t :: rest =>
    S.hangs before t && (S.guards.all fun g => g.table ≠ t || g.needs ∈ before) &&
      anchoredFrom (before ++ [t]) rest

section
variable {S} {rows : List (Row T)} {o : String} {gone : Row T → Bool} {before rest : List T} {t : T}
  {fk : ForeignKey T} {r p : Row T}

theorem satisfied_iff : S.satisfied rows = true ↔ ∀ r ∈ rows, ∀ fk ∈ S.foreignKeys,
    r.table = fk.child → (fk.target r).isSome = true → ∃ p ∈ rows, fk.refers r p = true := by
  unfold satisfied
  simp only [List.all_eq_true, Bool.or_eq_true, Bool.not_eq_true', List.any_eq_true]
  refine forall₂_congr fun r _ => forall₂_congr fun fk _ => ?_
  rw [← Bool.not_eq_true, Bool.and_eq_true, decide_eq_true_eq]
  tauto

theorem refers_iff : fk.refers r p = true ↔ r.table = fk.child ∧ p.table = fk.parent ∧
    ∃ vs, fk.target r = some vs ∧ fk.keys.mapM p.cell = some vs := by
  unfold ForeignKey.refers
  simp only [Bool.and_eq_true, decide_eq_true_eq, Option.isSome_iff_exists]
  constructor
  · rintro ⟨⟨⟨hr, hp⟩, vs, hvs⟩, heq⟩
    exact ⟨hr, hp, vs, hvs, heq ▸ hvs⟩
  · rintro ⟨hr, hp, vs, hvs, hkeys⟩
    exact ⟨⟨⟨hr, hp⟩, vs, hvs⟩, hvs.trans hkeys.symm⟩

theorem head_of_mapM {f : String → Option String} {cs vs : List String} {c : String}
    (hc : cs.head? = some c) (h : cs.mapM f = some vs) : f c = vs.head? := by
  cases cs with
  | nil => cases hc
  | cons d cs =>
    obtain rfl := Option.some.inj hc
    rw [List.mapM_cons] at h
    obtain ⟨v, hv, h⟩ := Option.bind_eq_some_iff.mp h
    obtain ⟨rest, -, h⟩ := Option.bind_eq_some_iff.mp h
    obtain rfl := Option.some.inj h
    exact hv

/-- A foreign key stays with the owner. -/
theorem owner_of_refers (keeps : S.keepsOwner = true) (hfk : fk ∈ S.foreignKeys)
    (h : fk.refers r p = true) : S.ownedBy o r = S.ownedBy o p := by
  obtain ⟨-, -, vs, htarget, hkeys⟩ := refers_iff.mp h
  have hscope := List.all_eq_true.mp keeps fk hfk
  rw [Bool.and_eq_true, Bool.and_eq_true, decide_eq_true_eq, decide_eq_true_eq] at hscope
  unfold ownedBy
  rw [head_of_mapM hscope.1.1 htarget, head_of_mapM hscope.1.2 hkeys]

/-- The rows of the owner are gone from the tables before, and no other rows are. -/
def Gone (S : Schema T) (rows : List (Row T)) (o : String) (before : List T)
    (gone : Row T → Bool) : Prop :=
  ∀ r ∈ rows, gone r = true ↔ r.table ∈ before ∧ S.ownedBy o r = true

theorem target_isSome (valid : S.Valid rows) (hr : r ∈ rows)
    (hcolumns : ∀ c ∈ fk.columns, c ∈ S.notNull r.table) : (fk.target r).isSome = true := by
  unfold ForeignKey.target
  generalize fk.columns = cs at hcolumns
  induction cs with
  | nil => rfl
  | cons c cs ih =>
    obtain ⟨v, hv⟩ := Option.isSome_iff_exists.mp
      (valid.notNull r hr c (hcolumns c (List.mem_cons_self ..)))
    obtain ⟨vs, hvs⟩ := Option.isSome_iff_exists.mp
      (ih fun d hd => hcolumns d (List.mem_cons_of_mem _ hd))
    rw [List.mapM_cons, hv, hvs]
    rfl

/-- Of a table that hangs on those before, exactly the rows of the owner go. -/
theorem goes_iff (valid : S.Valid rows) (keeps : S.keepsOwner = true)
    (hgone : Gone S rows o before gone) (hangs : S.hangs before t = true) (hr : r ∈ rows) :
    S.goes rows (S.ownedRoot o) gone t r = true ↔ r.table = t ∧ S.ownedBy o r = true := by
  unfold goes
  rw [Bool.and_eq_true, decide_eq_true_eq]
  refine and_congr_right fun htable => ?_
  rw [Bool.or_eq_true, List.any_eq_true]
  constructor
  · rintro (hhit | ⟨fk, hfk, hany⟩)
    · exact (Bool.and_eq_true_iff.mp hhit).2
    · obtain ⟨-, hany⟩ := Bool.and_eq_true_iff.mp hany
      obtain ⟨p, hp, hp'⟩ := List.any_eq_true.mp hany
      obtain ⟨hpgone, hrefers⟩ := Bool.and_eq_true_iff.mp hp'
      rw [owner_of_refers keeps hfk hrefers]
      exact ((hgone p hp).mp hpgone).2
  · intro howned
    rcases Bool.or_eq_true_iff.mp hangs with hroot | hany
    · left
      unfold ownedRoot
      rw [htable, howned, Bool.and_true]
      exact hroot
    · right
      obtain ⟨fk, hfk, h⟩ := List.any_eq_true.mp hany
      simp only [Bool.and_eq_true, decide_eq_true_eq, List.all_eq_true] at h
      obtain ⟨⟨⟨hcascade, hchild⟩, hparent⟩, hcolumns⟩ := h
      have hsome : (fk.target r).isSome = true :=
        target_isSome valid hr (by rw [htable]; exact hcolumns)
      obtain ⟨p, hp, hrefers⟩ := satisfied_iff.mp valid.satisfied r hr fk hfk
        (htable.trans hchild.symm) hsome
      have hpgone : gone p = true := by
        refine (hgone p hp).mpr ⟨?_, ?_⟩
        · rw [(refers_iff.mp hrefers).2.1]
          exact hparent
        · rw [← owner_of_refers keeps hfk hrefers]
          exact howned
      refine ⟨fk, hfk, ?_⟩
      rw [hcascade, Bool.true_and, List.any_eq_true]
      exact ⟨p, hp, by rw [hpgone, hrefers]; rfl⟩

theorem round_gone (valid : S.Valid rows) (keeps : S.keepsOwner = true)
    (hgone : Gone S rows o before gone) (hangs : S.hangs before t = true)
    (hguards : ∀ g ∈ S.guards, g.table = t → g.needs ∈ before) :
    ∃ gone', S.round rows (S.ownedRoot o) gone t = some gone' ∧
      Gone S rows o (before ++ [t]) gone' := by
  refine ⟨fun r => gone r || S.goes rows (S.ownedRoot o) gone t r, ?_, fun r hr => ?_⟩
  · unfold round
    rw [if_neg]
    intro hany
    obtain ⟨r, hr, h⟩ := List.any_eq_true.mp hany
    obtain ⟨hgoes, hblocked⟩ := Bool.and_eq_true_iff.mp h
    obtain ⟨g, hg, h⟩ := List.any_eq_true.mp hblocked
    obtain ⟨htable, hblocks⟩ := Bool.and_eq_true_iff.mp h
    obtain ⟨-, howned⟩ := (goes_iff valid keeps hgone hangs hr).mp hgoes
    -- what the guard needs is a row of the owner in a table before, and those are gone
    obtain ⟨x, hx, hneeds, howner⟩ := g.spec _ _ hblocks
    obtain ⟨hmem, hleft⟩ := List.mem_filter.mp hx
    have hxgone : gone x = true := by
      refine (hgone x hmem).mpr ⟨hneeds ▸ hguards g hg (of_decide_eq_true htable), ?_⟩
      unfold ownedBy at howned ⊢
      rw [howner]
      exact howned
    rw [hxgone] at hleft
    cases hleft
  · rw [Bool.or_eq_true, hgone r hr, goes_iff valid keeps hgone hangs hr, List.mem_append,
      List.mem_singleton, or_and_right]

theorem rounds_gone (valid : S.Valid rows) (keeps : S.keepsOwner = true)
    (hgone : Gone S rows o before gone) (hanchored : S.anchoredFrom before rest = true) :
    ∃ gone', rest.foldlM (S.round rows (S.ownedRoot o)) gone = some gone' ∧
      Gone S rows o (before ++ rest) gone' := by
  induction rest generalizing before gone with
  | nil => exact ⟨gone, rfl, by rwa [List.append_nil]⟩
  | cons t rest ih =>
    rw [anchoredFrom, Bool.and_eq_true, Bool.and_eq_true, List.all_eq_true] at hanchored
    obtain ⟨⟨hangs, hguards⟩, hrest⟩ := hanchored
    obtain ⟨gone₁, hround, hgone₁⟩ := round_gone valid keeps hgone hangs fun g hg htable => by
      simpa [htable] using hguards g hg
    obtain ⟨gone', hfold, hgone'⟩ := ih hgone₁ hrest
    refine ⟨gone', ?_, ?_⟩
    · rw [List.foldlM_cons, hround]
      exact hfold
    · rw [List.append_cons]
      exact hgone'

/-- Deleting an owner from the root deletes the rows of the owner in every table of the order, and no
other ones. -/
theorem deleteRows_owner (valid : S.Valid rows) (keeps : S.keepsOwner = true)
    (hanchored : S.anchoredFrom [] S.order = true) : S.deleteRows rows (S.ownedRoot o) =
      some (rows.filter fun r => !(r.table ∈ S.order && S.ownedBy o r)) := by
  have start : Gone S rows o [] fun _ => false := fun r _ => by simp
  obtain ⟨gone, hfold, hgone⟩ := rounds_gone valid keeps start hanchored
  rw [List.nil_append] at hgone
  unfold deleteRows
  rw [hfold, Option.bind_some]
  have hleft : (rows.filter fun r => !gone r) =
      rows.filter fun r => !(r.table ∈ S.order && S.ownedBy o r) := by
    refine List.filter_congr fun r hr => congrArg not ?_
    rw [Bool.eq_iff_iff, hgone r hr, Bool.and_eq_true, decide_eq_true_eq]
  dsimp only
  rw [hleft, if_pos]
  refine satisfied_iff.mpr fun r hr fk hfk hchild hsome => ?_
  obtain ⟨hmem, hkept⟩ := List.mem_filter.mp hr
  obtain ⟨p, hp, hrefers⟩ := satisfied_iff.mp valid.satisfied r hmem fk hfk hchild hsome
  refine ⟨p, List.mem_filter.mpr ⟨hp, ?_⟩, hrefers⟩
  have horder : r.table ∈ S.order := by
    rw [hchild]
    have hscope := List.all_eq_true.mp keeps fk hfk
    rw [Bool.and_eq_true, decide_eq_true_eq] at hscope
    exact hscope.2
  rw [← owner_of_refers keeps hfk hrefers]
  rw [decide_eq_true horder, Bool.true_and] at hkept
  rw [Bool.not_eq_true'] at hkept
  rw [hkept, Bool.and_false, Bool.not_false]

end

end Schema

end Relational
