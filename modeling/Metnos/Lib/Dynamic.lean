import Metnos.Lib.Json

/-!
# Dynamic — dictionaries and type tests of a dynamic language

A dictionary is the list of its entries in the order of insertion.  A read that finds nothing gives
`null`, a write replaces the entry in its place or appends one.  Truth values count as integers.
-/

namespace Dynamic

abbrev Dict := List (String × Json)

namespace Dict

variable (d : Dict)

/-- `d.get(k)` -/
def get (k : String) : Json := (Json.get? d k).getD .null

/-- `k in d` -/
def has (k : String) : Bool := (Json.get? d k).isSome

/-- `d[k] = v` -/
def set (k : String) (v : Json) : Dict :=
  if d.has k then d.map fun f => if f.1 = k then (k, v) else f else d ++ [(k, v)]

/-- `d.setdefault(k, v)` -/
def setDefault (k : String) (v : Json) : Dict := if d.has k then d else d.set k v

end Dict

/-! ## Type tests -/

/-- `isinstance(v, int)` -/
def asInt : Json → Option ℤ
  | .int n => some n
  | .bool b => some (if b then 1 else 0)
  | _ => none

/-- `isinstance(v, str)` -/
def asStr : Json → Option String
  | .str s => some s
  | _ => none

/-- `isinstance(v, list)` -/
def asList : Json → Option (List Json)
  | .arr items => some items
  | _ => none

/-- `isinstance(v, dict)` -/
def asDict : Json → Option Dict
  | .obj fields => some fields
  | _ => none

def isNull : Json → Bool
  | .null => true
  | _ => false

/-- `v is False` -/
def isFalse : Json → Bool
  | .bool false => true
  | _ => false

/-- `v is True` -/
def isTrue : Json → Bool
  | .bool true => true
  | _ => false

/-- A value that may be the key of a dictionary or the member of a set. -/
def hashable : Json → Bool
  | .arr _ | .obj _ => false
  | _ => true

/-! ## Equality -/

/-- Two floats by their texts: zeros of both signs are equal, and what is no number equals nothing. -/
def floatEq (s t : String) : Bool :=
  s ≠ "nan" && (s = t || s ∈ ["0.0", "-0.0"] && t ∈ ["0.0", "-0.0"])

section
variable (whole : String → Option ℤ)

/-- Two numbers; `whole` gives the integer that a float is equal to. -/
def numberEq (v w : Json) : Bool :=
  match v, w with
  | .float s, .float t => floatEq s t
  | .float s, w => (whole s).any fun n => asInt w = some n
  | v, .float t => (whole t).any fun n => asInt v = some n
  | v, w => (asInt v).any fun n => asInt w = some n

mutual

/-- `v == w` -/
def eq : Json → Json → Bool
  | .null, w => isNull w
  | .str s, w => asStr w = some s
  | .arr items, w => (asList w).any fun other => eqItems items other
  | .obj fields, w =>
    (asDict w).any fun other => fields.length = other.length && eqFields fields other
  | .bool b, w => numberEq whole (.bool b) w
  | .int n, w => numberEq whole (.int n) w
  | .float text, w => numberEq whole (.float text) w

def eqItems : List Json → List Json → Bool
  | [], other => other.isEmpty
  | v :: rest, other => other.head?.any (fun w => eq v w) && eqItems rest other.tail

def eqFields : List (String × Json) → List (String × Json) → Bool
  | [], _ => true
  | (k, v) :: rest, other => (Json.get? other k).any (fun w => eq v w) && eqFields rest other

end

end

/-! ## Reads after writes -/

namespace Dict

theorem has_iff (d : Dict) (k : String) : d.has k = true ↔ k ∈ d.map Prod.fst := by
  unfold has Json.get?
  rw [Option.isSome_map, List.find?_isSome]
  simp

theorem get?_map (d : Dict) (k k' : String) (v : Json) :
    Json.get? (d.map fun f => if f.1 = k then (k, v) else f) k' =
      if k' = k then (Json.get? d k).map fun _ => v else Json.get? d k' := by
  unfold Json.get?
  induction d with
  | nil => simp
  | cons f d ih =>
    by_cases hk : f.1 = k
    · by_cases hk' : k' = k
      · subst hk'
        simp [hk]
      · have hne : f.1 ≠ k' := by
          rintro rfl
          exact hk' hk
        simp only [if_neg hk'] at ih ⊢
        rw [List.map_cons, if_pos hk, List.find?_cons_of_neg (by simpa using Ne.symm hk'),
          List.find?_cons_of_neg (by simpa using hne)]
        exact ih
    · by_cases hk' : f.1 = k'
      · have hne : k' ≠ k := by
          rintro rfl
          exact hk hk'
        simp [hk', hne]
      · rw [List.map_cons, if_neg hk, List.find?_cons_of_neg (by simpa using hk'), ih]
        by_cases hkk : k' = k
        · rw [if_pos hkk, if_pos hkk, List.find?_cons_of_neg (by simpa using hk)]
        · rw [if_neg hkk, if_neg hkk, List.find?_cons_of_neg (by simpa using hk')]

theorem get?_append (d : Dict) (k k' : String) (v : Json) :
    Json.get? (d ++ [(k, v)]) k' =
      (Json.get? d k').or (if k' = k then some v else none) := by
  unfold Json.get?
  rw [List.find?_append]
  cases d.find? fun f => f.1 = k' with
  | some f => rfl
  | none =>
    by_cases hk : k' = k
    · simp [hk]
    · simp [hk, Ne.symm hk]

theorem get?_set (d : Dict) (k k' : String) (v : Json) :
    Json.get? (d.set k v) k' = if k' = k then some v else Json.get? d k' := by
  unfold set
  by_cases hhas : d.has k = true
  · rw [if_pos hhas, get?_map]
    obtain ⟨w, hw⟩ := Option.isSome_iff_exists.mp hhas
    rw [hw, Option.map_some]
  · rw [if_neg hhas, get?_append]
    by_cases hk : k' = k
    · subst hk
      have hnone : Json.get? d k' = none := by simpa [has] using hhas
      rw [hnone, if_pos rfl, Option.none_or]
    · rw [if_neg hk, if_neg hk, Option.or_none]

theorem has_set (d : Dict) (k k' : String) (v : Json) :
    (d.set k v).has k' = (decide (k' = k) || d.has k') := by
  unfold has
  rw [get?_set]
  by_cases hk : k' = k
  · simp [hk]
  · simp [hk]

/-! ## Dictionaries that only grow -/

/-- Every key keeps its value or gets its first one, of which `P` holds. -/
def Fills (P : String → Json → Prop) (d d' : Dict) : Prop :=
  ∀ k, Json.get? d' k = Json.get? d k ∨
    Json.get? d k = none ∧ ∃ x, Json.get? d' k = some x ∧ P k x

section
variable {P Q : String → Json → Prop} {d d' d'' : Dict} {k : String} {v : Json}

theorem Fills.refl : Fills P d d := fun _ => .inl rfl

theorem Fills.keeps (h : Fills P d d') (hk : Json.get? d k = some v) :
    Json.get? d' k = some v := by
  obtain hsame | ⟨hnone, -⟩ := h k
  · rw [hsame, hk]
  · rw [hnone] at hk
    contradiction

theorem Fills.was_none (h : Fills P d d') (hk : Json.get? d' k = none) : Json.get? d k = none := by
  obtain hsame | ⟨hnone, -⟩ := h k
  · rw [← hsame, hk]
  · exact hnone

/-- A value that is there is an old one or a new one. -/
theorem Fills.origin (h : Fills P d d') (hk : Json.get? d' k = some v) :
    Json.get? d k = some v ∨ Json.get? d k = none ∧ P k v := by
  obtain hsame | ⟨hnone, x, hx, hP⟩ := h k
  · rw [hsame] at hk
    exact .inl hk
  · rw [hx] at hk
    obtain rfl := Option.some.inj hk
    exact .inr ⟨hnone, hP⟩

theorem Fills.trans (h : Fills P d d') (h' : Fills P d' d'') : Fills P d d'' := by
  intro k
  obtain hsame | ⟨hnone, x, hx, hP⟩ := h k
  · rw [← hsame]
    exact h' k
  · exact .inr ⟨hnone, x, h'.keeps hx, hP⟩

theorem fills_set (hnew : Json.get? d k = none) (hP : P k v) : Fills P d (d.set k v) := by
  intro k'
  rw [get?_set]
  by_cases hk : k' = k
  · subst hk
    exact .inr ⟨hnew, v, if_pos rfl, hP⟩
  · exact .inl (if_neg hk)

theorem fills_setDefault (hP : P k v) : Fills P d (d.setDefault k v) := by
  unfold setDefault
  by_cases hhas : d.has k = true
  · rw [if_pos hhas]
    exact .refl
  · rw [if_neg hhas]
    exact fills_set (by simpa [has] using hhas) hP

end

end Dict

/-! ## Runs that may fail -/

/-- What every round of a loop relates, the whole loop relates. -/
theorem foldlM_rel {α β : Type} {R : β → β → Prop} {step : β → α → Option β} (l : List α)
    (refl : ∀ b, R b b) (trans : ∀ {b c d}, R b c → R c d → R b d)
    (round : ∀ a ∈ l, ∀ b c, step b a = some c → R b c) {b c : β} (h : l.foldlM step b = some c) :
    R b c := by
  induction l generalizing b with
  | nil =>
    obtain rfl := Option.some.inj h
    exact refl b
  | cons a l ih =>
    rw [List.foldlM_cons] at h
    obtain ⟨d, hd, hrest⟩ := Option.bind_eq_some_iff.mp h
    exact trans (round a (by simp) b d hd) (ih (fun a ha => round a (by simp [ha])) hrest)

end Dynamic
