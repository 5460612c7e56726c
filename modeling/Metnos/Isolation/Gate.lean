import Mathlib
import Metnos.Lib.Sorting

/-!
# Isolation.Gate — the targets of an invocation, and when two invocations conflict

`validate_targets` and `_conflicts`.  A target is the sequence of its code points, surrogates
included, as Python compares strings.  The two binary searches of `_conflicts` are shown to decide
the relation on targets that they stand for: equal, or one of them a directory above the other.
-/

namespace Metnos.Isolation

/-- A `str`: code points in order; `sorted` and `bisect_left` compare these sequences. -/
abbrev Text := List ℕ

def text (s : String) : Text := s.toList.map Char.toNat

def slash : ℕ := 47

/-- `len(item.encode("utf-8"))`; encoding refuses surrogates. -/
def utf8Size (c : ℕ) : Option ℕ :=
  if c < 0x80 then some 1
  else if c < 0x800 then some 2
  else if 0xd800 ≤ c && c < 0xe000 then none
  else if c < 0x10000 then some 3
  else some 4

inductive TargetError
  | unbounded | identity | unsorted | encoding | bytes
deriving DecidableEq

def sizeOf (item : Text) : Except TargetError ℕ :=
  match item.mapM utf8Size with
  | some sizes => .ok sizes.sum
  | none => .error .encoding

/-- `validate_targets` on a tuple of strings. -/
def validateTargets (value : List Text) : Except TargetError (List Text) := do
  if 256 < value.length then throw .unbounded
  if value.any (fun item => item.isEmpty || item.contains 0 || 4096 < item.length) then
    throw .identity
  if value.dedup.insertionSort (· ≤ ·) ≠ value then throw .unsorted
  let sizes ← value.mapM sizeOf
  if 65536 < sizes.sum then throw .bytes
  return value

/-- `_Ticket`.  It compares by identity, which `number` stands for: the count of the calls that
queued before. -/
structure Ticket where
  number : ℕ
  executor : String
  kind : String
  targets : Option (List Text)
deriving DecidableEq

/-- `path.rstrip("/") + "/"`. -/
def descendants (path : Text) : Text := path.rdropWhile (· = slash) ++ [slash]

/-- One pass of the loop of `_conflicts`: a path of one side is, or is above, a candidate. -/
def meetsAt (paths candidates : List Text) : Bool :=
  paths.any fun path =>
    decide (candidates[Bisect.bisectLeft candidates path]? = some path) ||
    candidates[Bisect.bisectLeft candidates (descendants path)]?.any (fun candidate =>
      (descendants path).isPrefixOf candidate)

/-- `_conflicts`. -/
def conflicts (left right : Ticket) : Bool :=
  if left.executor ≠ right.executor then false
  else match left.targets, right.targets with
    | some ls, some rs =>
      if left.kind ≠ right.kind then true
      else if left.kind = "path" then meetsAt ls rs || meetsAt rs ls
      else ls.any (fun target => rs.contains target)
    | _, _ => true

/-- `p` without its trailing slashes, a slash, and anything after it. -/
def Ancestor (p q : Text) : Prop := ∃ rest, q = p.rdropWhile (· = slash) ++ slash :: rest

/-- The relation `_conflicts` decides. -/
def Conflict (s t : Ticket) : Prop :=
  s.executor = t.executor ∧ ∀ ls rs, s.targets = some ls → t.targets = some rs → s.kind = t.kind →
    ∃ p ∈ ls, ∃ q ∈ rs, p = q ∨ (s.kind = "path" ∧ (Ancestor p q ∨ Ancestor q p))

/-- The targets of a ticket passed `validate_targets`. -/
def Ticket.Valid (t : Ticket) : Prop :=
  ∀ targets, t.targets = some targets → validateTargets targets = .ok targets

theorem Conflict.symm {s t : Ticket} (h : Conflict s t) : Conflict t s := by
  refine ⟨h.1.symm, fun ls rs hl hr hk => ?_⟩
  obtain ⟨p, hp, q, hq, hpq⟩ := h.2 rs ls hr hl hk.symm
  refine ⟨q, hq, p, hp, ?_⟩
  rcases hpq with rfl | ⟨hpath, hpq⟩
  · exact .inl rfl
  · exact .inr ⟨hk.trans hpath, hpq.symm⟩

theorem validateTargets_sorted {value out : List Text} (h : validateTargets value = .ok out) :
    value.Pairwise (· < ·) := by
  simp only [validateTargets] at h
  split at h
  · cases h
  split at h
  · cases h
  split at h
  · cases h
  rename_i hsorted
  have eq : value.dedup.insertionSort (· ≤ ·) = value := not_not.mp hsorted
  have sorted : value.Pairwise (· ≤ ·) := eq ▸ List.pairwise_insertionSort _ _
  have nodup : value.Nodup :=
    eq ▸ ((List.perm_insertionSort (· ≤ ·) value.dedup).nodup_iff.mpr (List.nodup_dedup value))
  exact (sorted.and nodup).imp fun h => lt_of_le_of_ne h.1 h.2

theorem validateTargets_same {value out : List Text} (h : validateTargets value = .ok out) :
    out = value := by
  simp only [validateTargets] at h
  split at h
  · cases h
  split at h
  · cases h
  split at h
  · cases h
  cases hsizes : value.mapM sizeOf with
  | error e => rw [hsizes] at h; cases h
  | ok sizes =>
    rw [hsizes] at h
    simp only [bind, Except.bind] at h
    split at h
    · cases h
    · exact (Except.ok.inj h).symm

theorem ancestor_iff {p q : Text} : Ancestor p q ↔ descendants p <+: q := by
  unfold Ancestor descendants
  constructor
  · rintro ⟨rest, rfl⟩
    exact ⟨rest, by simp⟩
  · rintro ⟨rest, rfl⟩
    exact ⟨rest, by simp⟩

theorem meetsAt_iff {paths candidates : List Text} (h : candidates.Pairwise (· < ·)) :
    meetsAt paths candidates = true ↔ ∃ p ∈ paths, ∃ q ∈ candidates, p = q ∨ Ancestor p q := by
  have sorted : candidates.Pairwise (· ≤ ·) := h.imp le_of_lt
  unfold meetsAt
  rw [List.any_eq_true]
  refine exists_congr fun p => and_congr_right fun _ => ?_
  rw [Bool.or_eq_true, decide_eq_true_eq, ← Bisect.mem_iff_bisectLeft sorted, Option.any_eq_true]
  simp only [List.isPrefixOf_iff_prefix]
  rw [← Bisect.exists_isPrefix_iff sorted]
  constructor
  · rintro (hp | ⟨q, hq, hpq⟩)
    · exact ⟨p, hp, .inl rfl⟩
    · exact ⟨q, hq, .inr (ancestor_iff.mpr hpq)⟩
  · rintro ⟨q, hq, rfl | hpq⟩
    · exact .inl hq
    · exact .inr ⟨q, hq, ancestor_iff.mp hpq⟩

theorem conflict_targets {s t : Ticket} {ls rs : List Text} (executor : s.executor = t.executor)
    (hs : s.targets = some ls) (ht : t.targets = some rs) (kind : s.kind = t.kind) :
    Conflict s t ↔
      ∃ p ∈ ls, ∃ q ∈ rs, p = q ∨ (s.kind = "path" ∧ (Ancestor p q ∨ Ancestor q p)) := by
  constructor
  · intro h
    exact h.2 ls rs hs ht kind
  · intro h
    refine ⟨executor, fun ls' rs' hs' ht' _ => ?_⟩
    obtain rfl : ls = ls' := Option.some.inj (hs.symm.trans hs')
    obtain rfl : rs = rs' := Option.some.inj (ht.symm.trans ht')
    exact h

theorem conflicts_iff {s t : Ticket} (hs : s.Valid) (ht : t.Valid) :
    conflicts s t = true ↔ Conflict s t := by
  unfold conflicts
  by_cases executor : s.executor = t.executor
  case neg => simp [Conflict, executor]
  rw [if_neg (not_not.mpr executor)]
  cases hl : s.targets with
  | none => simp [Conflict, executor, hl]
  | some ls =>
    cases hr : t.targets with
    | none => simp [Conflict, executor, hr]
    | some rs =>
      by_cases kind : s.kind = t.kind
      case neg => simp [Conflict, executor, kind]
      rw [conflict_targets executor hl hr kind]
      simp only [if_neg (not_not.mpr kind)]
      by_cases path : s.kind = "path"
      · rw [if_pos path, Bool.or_eq_true, meetsAt_iff (validateTargets_sorted (ht rs hr)),
          meetsAt_iff (validateTargets_sorted (hs ls hl))]
        constructor
        · rintro (⟨p, hp, q, hq, hpq⟩ | ⟨q, hq, p, hp, hpq⟩)
          · exact ⟨p, hp, q, hq, hpq.imp_right fun h => ⟨path, .inl h⟩⟩
          · exact ⟨p, hp, q, hq, hpq.imp Eq.symm fun h => ⟨path, .inr h⟩⟩
        · rintro ⟨p, hp, q, hq, rfl | ⟨-, hpq | hpq⟩⟩
          · exact .inl ⟨p, hp, p, hq, .inl rfl⟩
          · exact .inl ⟨p, hp, q, hq, .inr hpq⟩
          · exact .inr ⟨q, hq, p, hp, .inr hpq⟩
      · simp [path]

-- The key between the two in the sorted order does not hide the descendant.
example : conflicts ⟨0, "move", "path", some [text "/a", text "/a-other"]⟩
    ⟨1, "move", "path", some [text "/a/child"]⟩ = true :=
  (conflicts_iff (fun _ h => by cases h; rfl) (fun _ h => by cases h; rfl)).mpr
    ⟨rfl, fun _ _ hl hr _ => by
      cases hl
      cases hr
      exact ⟨text "/a", by decide, text "/a/child", by decide,
        .inr ⟨rfl, .inl ⟨text "child", by decide⟩⟩⟩⟩

end Metnos.Isolation

/-!
## Exclusion of overlapping invocations, first come first served among conflicts

`InvocationIsolation`.  Everything happens under one condition variable, so an event is one stretch
of code that holds it: a call of `acquire` up to its first `wait`, one more round of its loop after
a wake-up or a timeout, an exception out of `wait`, and `release`.
-/

namespace Metnos.Isolation

/-- An entry of `_waiting`, with the deadline its call of `acquire` was given. -/
structure Waiter where
  ticket : Ticket
  deadline : Option ℕ
deriving DecidableEq

structure InvocationIsolation where
  queued : ℕ
  active : List Ticket
  waiting : List Waiter

namespace InvocationIsolation

def init : InvocationIsolation := ⟨0, [], []⟩

/-- `_waiting.remove(ticket)`. -/
def leave (S : InvocationIsolation) (number : ℕ) : InvocationIsolation :=
  { S with waiting := S.waiting.eraseP (fun w => w.ticket.number = number) }

/-- `_waiting[:_waiting.index(ticket)]`. -/
def earlier (S : InvocationIsolation) (number : ℕ) : List Ticket :=
  (S.waiting.takeWhile (fun w => w.ticket.number ≠ number)).map Waiter.ticket

/-- One round of the loop in `acquire`: give up, get in, or go on waiting. -/
def turn (S : InvocationIsolation) (w : Waiter) (now : ℕ) : InvocationIsolation :=
  if w.deadline.any (fun deadline => deadline ≤ now) then S.leave w.ticket.number
  else if (S.active ++ S.earlier w.ticket.number).any (conflicts w.ticket) then S
  else { S.leave w.ticket.number with active := S.active ++ [w.ticket] }

end InvocationIsolation

inductive Event
  | acquire (executor kind : String) (targets : Option (List Text)) (deadline : Option ℕ) (now : ℕ)
  | wake (number now : ℕ)
  | interrupt (number : ℕ)
  | release (number : ℕ)

namespace InvocationIsolation

/-- A call whose targets are refused, a wake-up of nobody and a release of a ticket that is not
active change nothing. -/
def step (S : InvocationIsolation) : Event → InvocationIsolation
  | .acquire executor kind targets deadline now =>
    let w : Waiter := ⟨⟨S.queued, executor, kind, targets⟩, deadline⟩
    let entered := { S with queued := S.queued + 1, waiting := S.waiting ++ [w] }
    match targets with
    | none => entered.turn w now
    | some value =>
      match validateTargets value with
      | .ok _ => entered.turn w now
      | .error _ => S
  | .wake number now =>
    match S.waiting.find? (fun w => w.ticket.number = number) with
    | some w => S.turn w now
    | none => S
  | .interrupt number => S.leave number
  | .release number => { S with active := S.active.eraseP (fun t => t.number = number) }

def run (events : List Event) : InvocationIsolation := events.foldl step init

def tickets (S : InvocationIsolation) : List Ticket := S.active ++ S.waiting.map Waiter.ticket

end InvocationIsolation

/-- What every run keeps: holders do not conflict, the queue is in order of arrival, and a number
belongs to one ticket. -/
structure Isolated (S : InvocationIsolation) : Prop where
  apart : S.active.Pairwise (fun s t => ¬Conflict s t)
  ordered : S.waiting.Pairwise (fun v w => v.ticket.number < w.ticket.number)
  distinct : (S.tickets.map Ticket.number).Nodup
  numbered : ∀ t ∈ S.tickets, t.number < S.queued
  valid : ∀ t ∈ S.tickets, t.Valid

variable {S S' : InvocationIsolation} {w : Waiter}

theorem isolated_init : Isolated .init :=
  ⟨.nil, .nil, .nil, by simp [InvocationIsolation.tickets, InvocationIsolation.init],
    by simp [InvocationIsolation.tickets, InvocationIsolation.init]⟩

theorem mem_tickets {t : Ticket} :
    t ∈ S.tickets ↔ t ∈ S.active ∨ ∃ w ∈ S.waiting, w.ticket = t := by
  simp [InvocationIsolation.tickets]

theorem Isolated.fewer (I : Isolated S) (queued : S'.queued = S.queued)
    (active : S'.active.Sublist S.active) (waiting : S'.waiting.Sublist S.waiting) :
    Isolated S' := by
  have sub : S'.tickets.Sublist S.tickets := active.append (waiting.map _)
  refine ⟨I.apart.sublist active, I.ordered.sublist waiting, I.distinct.sublist (sub.map _), ?_, ?_⟩
  · intro t ht
    rw [queued]
    exact I.numbered t (sub.subset ht)
  · intro t ht
    exact I.valid t (sub.subset ht)

theorem Isolated.leave (I : Isolated S) (number : ℕ) : Isolated (S.leave number) :=
  I.fewer rfl (List.Sublist.refl _) List.eraseP_sublist

theorem Isolated.enter (I : Isolated S) (hw : w.ticket.number = S.queued) (valid : w.ticket.Valid) :
    Isolated { S with queued := S.queued + 1, waiting := S.waiting ++ [w] } := by
  have tickets : ({ S with queued := S.queued + 1, waiting := S.waiting ++ [w] } :
      InvocationIsolation).tickets = S.tickets ++ [w.ticket] := by
    simp [InvocationIsolation.tickets]
  refine ⟨I.apart, ?_, ?_, ?_, ?_⟩
  · refine List.pairwise_append.mpr ⟨I.ordered, List.pairwise_singleton _ _, ?_⟩
    intro v hv u hu
    obtain rfl := List.mem_singleton.mp hu
    rw [hw]
    exact I.numbered v.ticket (mem_tickets.mpr (.inr ⟨v, hv, rfl⟩))
  · rw [tickets, List.map_append, List.nodup_append]
    refine ⟨I.distinct, List.nodup_singleton _, ?_⟩
    intro n hn m hm
    obtain ⟨t, ht, rfl⟩ := List.mem_map.mp hn
    obtain rfl : m = w.ticket.number := by simpa using hm
    have := I.numbered t ht
    omega
  · intro t ht
    rw [tickets, List.mem_append] at ht
    show t.number < S.queued + 1
    rcases ht with ht | ht
    · have := I.numbered t ht
      omega
    · rw [List.mem_singleton.mp ht]
      omega
  · intro t ht
    rw [tickets, List.mem_append] at ht
    rcases ht with ht | ht
    · exact I.valid t ht
    · rw [List.mem_singleton.mp ht]
      exact valid

theorem waiting_split (I : Isolated S) (hw : w ∈ S.waiting) :
    ∃ before after, S.waiting = before ++ w :: after ∧
      S.earlier w.ticket.number = before.map Waiter.ticket ∧
      (S.leave w.ticket.number).waiting = before ++ after := by
  obtain ⟨before, after, hsplit⟩ := List.append_of_mem hw
  have hne : ∀ v ∈ before, v.ticket.number ≠ w.ticket.number := by
    intro v hv
    have := I.ordered
    rw [hsplit, List.pairwise_append] at this
    exact (this.2.2 v hv w List.mem_cons_self).ne
  refine ⟨before, after, hsplit, ?_, ?_⟩
  · unfold InvocationIsolation.earlier
    rw [hsplit, List.takeWhile_append_of_pos (by simpa using hne)]
    simp
  · unfold InvocationIsolation.leave
    show List.eraseP _ S.waiting = _
    rw [hsplit, List.eraseP_append_right _ (by simpa using hne)]
    simp

theorem Isolated.admit (I : Isolated S) (hw : w ∈ S.waiting)
    (free : ∀ t ∈ S.active, ¬Conflict w.ticket t) :
    Isolated { S.leave w.ticket.number with active := S.active ++ [w.ticket] } := by
  obtain ⟨before, after, hsplit, -, hleave⟩ := waiting_split I hw
  have perm : ({ S.leave w.ticket.number with active := S.active ++ [w.ticket] } :
      InvocationIsolation).tickets.Perm S.tickets := by
    unfold InvocationIsolation.tickets
    show (S.active ++ [w.ticket] ++ (S.leave w.ticket.number).waiting.map Waiter.ticket).Perm _
    rw [hleave, hsplit, List.append_assoc]
    refine List.Perm.append_left _ ?_
    simp only [List.map_append, List.map_cons, List.singleton_append]
    exact List.perm_middle.symm
  refine ⟨?_, (I.leave _).ordered, (perm.map _).nodup_iff.mpr I.distinct, ?_, ?_⟩
  · refine List.pairwise_append.mpr ⟨I.apart, List.pairwise_singleton _ _, ?_⟩
    intro t ht u hu
    obtain rfl := List.mem_singleton.mp hu
    intro h
    exact free t ht h.symm
  · intro t ht
    exact I.numbered t (perm.subset ht)
  · intro t ht
    exact I.valid t (perm.subset ht)

theorem turn_cases (I : Isolated S) (hw : w ∈ S.waiting) (now : ℕ) :
    S.turn w now = S.leave w.ticket.number ∨ S.turn w now = S ∨
    (S.turn w now = { S.leave w.ticket.number with active := S.active ++ [w.ticket] } ∧
      ∀ t ∈ S.active ++ S.earlier w.ticket.number, ¬Conflict w.ticket t) := by
  unfold InvocationIsolation.turn
  split
  · exact .inl rfl
  · split
    · exact .inr (.inl rfl)
    · rename_i hfree
      refine .inr (.inr ⟨rfl, fun t ht conflict => hfree ?_⟩)
      obtain ⟨before, after, hsplit, hearlier, -⟩ := waiting_split I hw
      have known : t ∈ S.tickets := by
        rcases List.mem_append.mp ht with ht | ht
        · exact mem_tickets.mpr (.inl ht)
        · rw [hearlier] at ht
          obtain ⟨v, hv, rfl⟩ := List.mem_map.mp ht
          exact mem_tickets.mpr (.inr ⟨v, hsplit ▸ List.mem_append_left _ hv, rfl⟩)
      have queued : w.ticket ∈ S.tickets := mem_tickets.mpr (.inr ⟨w, hw, rfl⟩)
      exact List.any_eq_true.mpr
        ⟨t, ht, (conflicts_iff (I.valid _ queued) (I.valid t known)).mpr conflict⟩

theorem Isolated.turn (I : Isolated S) (hw : w ∈ S.waiting) (now : ℕ) :
    Isolated (S.turn w now) := by
  rcases turn_cases I hw now with h | h | ⟨h, free⟩ <;> rw [h]
  · exact I.leave _
  · exact I
  · exact I.admit hw fun t ht => free t (List.mem_append_left _ ht)

theorem turn_fair (I : Isolated S) (hw : w ∈ S.waiting) {now : ℕ} {t : Ticket}
    (ht : t ∈ (S.turn w now).active) (hnew : t ∉ S.active) {v : Waiter} (hv : v ∈ S.waiting)
    (hlt : v.ticket.number < t.number) : ¬Conflict t v.ticket := by
  rcases turn_cases I hw now with h | h | ⟨h, free⟩ <;> rw [h] at ht
  · exact absurd ht hnew
  · exact absurd ht hnew
  · rcases List.mem_append.mp ht with ht | ht
    · exact absurd ht hnew
    obtain rfl := List.mem_singleton.mp ht
    obtain ⟨before, after, hsplit, hearlier, -⟩ := waiting_split I hw
    refine free v.ticket (List.mem_append_right _ ?_)
    have order := I.ordered
    rw [hsplit] at hv order
    rw [hearlier]
    rcases List.mem_append.mp hv with hv | hv
    · exact List.mem_map_of_mem hv
    rcases List.mem_cons.mp hv with rfl | hv
    · omega
    · have := List.rel_of_pairwise_cons (List.pairwise_append.mp order).2.1 hv
      omega

theorem valid_of_validate {executor kind : String} {value : List Text} {number : ℕ}
    (h : validateTargets value = .ok value) : (⟨number, executor, kind, some value⟩ : Ticket).Valid := by
  rintro _ ⟨⟩
  exact h

theorem step_cases (I : Isolated S) (e : Event) :
    (∃ S1 w now, S.step e = S1.turn w now ∧ Isolated S1 ∧ w ∈ S1.waiting ∧
      S1.active = S.active ∧ ∀ v ∈ S.waiting, v ∈ S1.waiting) ∨
    (Isolated (S.step e) ∧ ∀ t ∈ (S.step e).active, t ∈ S.active) := by
  cases e with
  | acquire executor kind targets deadline now =>
    have enters : (⟨S.queued, executor, kind, targets⟩ : Ticket).Valid →
        ∃ S1 w now', ({ S with
            queued := S.queued + 1,
            waiting := S.waiting ++ [⟨⟨S.queued, executor, kind, targets⟩, deadline⟩] } :
              InvocationIsolation).turn ⟨⟨S.queued, executor, kind, targets⟩, deadline⟩ now =
            S1.turn w now' ∧ Isolated S1 ∧ w ∈ S1.waiting ∧ S1.active = S.active ∧
          ∀ v ∈ S.waiting, v ∈ S1.waiting := fun valid =>
      ⟨_, _, _, rfl, I.enter rfl valid, List.mem_append_right _ (List.mem_singleton_self _), rfl,
        fun v hv => List.mem_append_left _ hv⟩
    cases targets with
    | none => exact .inl (enters (by rintro _ ⟨⟩))
    | some value =>
      cases hv : validateTargets value with
      | ok out =>
        left
        simp only [InvocationIsolation.step, hv]
        exact enters (valid_of_validate (validateTargets_same hv ▸ hv))
      | error err =>
        right
        simp only [InvocationIsolation.step, hv]
        exact ⟨I, fun t ht => ht⟩
  | wake number now =>
    cases hfind : S.waiting.find? (fun w => w.ticket.number = number) with
    | none =>
      right
      simp only [InvocationIsolation.step, hfind]
      exact ⟨I, fun t ht => ht⟩
    | some w =>
      left
      simp only [InvocationIsolation.step, hfind]
      exact ⟨S, w, now, rfl, I, List.mem_of_find?_eq_some hfind, rfl, fun v hv => hv⟩
  | interrupt number => exact .inr ⟨I.leave number, fun t ht => ht⟩
  | release number =>
    exact .inr ⟨I.fewer rfl List.eraseP_sublist (List.Sublist.refl _),
      fun t ht => List.mem_of_mem_eraseP ht⟩

theorem isolated_step (I : Isolated S) (e : Event) : Isolated (S.step e) := by
  rcases step_cases I e with ⟨S1, w, now, h, I1, hw, -, -⟩ | ⟨h, -⟩
  · rw [h]
    exact I1.turn hw now
  · exact h

theorem isolated_run (events : List Event) : Isolated (InvocationIsolation.run events) := by
  induction events using List.reverseRecOn with
  | nil => exact isolated_init
  | append_singleton events e ih =>
    rw [InvocationIsolation.run, List.foldl_concat]
    exact isolated_step ih e

/-- In every run the holders do not conflict, and nobody gets in past an earlier request that
conflicts with it and still waits. -/
theorem invocations_isolated (events : List Event) :
    (InvocationIsolation.run events).active.Pairwise (fun s t => ¬Conflict s t) ∧
    ∀ e, ∀ t ∈ ((InvocationIsolation.run events).step e).active,
      t ∉ (InvocationIsolation.run events).active →
      ∀ w ∈ (InvocationIsolation.run events).waiting, w.ticket.number < t.number →
        ¬Conflict t w.ticket := by
  have I := isolated_run events
  refine ⟨I.apart, fun e t ht hnew w hw hlt => ?_⟩
  rcases step_cases I e with ⟨S1, u, now, h, I1, hu, active, waiting⟩ | ⟨-, h⟩
  · rw [h] at ht
    exact turn_fair I1 hu ht (active ▸ hnew) (waiting w hw) hlt
  · exact absurd (h t ht) hnew

/-! ## Who sleeps -/

/-- A run, with the waiters that are in `wait` and were not notified since. -/
structure Watched where
  gate : InvocationIsolation
  asleep : List ℕ

namespace Watched

/-- Who runs and still waits goes to sleep; who leaves the queue or the holders notifies all. -/
def turned (W : Watched) (S : InvocationIsolation) (number : ℕ) : Watched :=
  ⟨S, if S.waiting.any (fun w => w.ticket.number = number) then number :: W.asleep else []⟩

def step (W : Watched) (e : Event) : Watched :=
  let S := W.gate.step e
  match e with
  | .acquire .. => if S.queued = W.gate.queued then ⟨S, W.asleep⟩ else W.turned S W.gate.queued
  | .wake number _ =>
    if W.gate.waiting.any (fun w => w.ticket.number = number) then W.turned S number
    else ⟨S, W.asleep⟩
  | .interrupt _ => ⟨S, []⟩
  | .release _ => ⟨S, []⟩

def run (events : List Event) : Watched := events.foldl step ⟨.init, []⟩

/-- Each sleeper is blocked: a holder or an earlier waiter conflicts with it. -/
structure Sound (W : Watched) : Prop where
  isolated : Isolated W.gate
  known : ∀ n ∈ W.asleep, n < W.gate.queued
  blocked : ∀ w ∈ W.gate.waiting, w.ticket.number ∈ W.asleep →
    (W.gate.active ++ W.gate.earlier w.ticket.number).any (conflicts w.ticket) = true

variable {W : Watched}

theorem Sound.awake {S : InvocationIsolation} (I : Isolated S) : Sound ⟨S, []⟩ :=
  ⟨I, fun _ hn => absurd hn List.not_mem_nil, fun _ _ hv => absurd hv List.not_mem_nil⟩

theorem queued_turn (S : InvocationIsolation) (w : Waiter) (now : ℕ) :
    (S.turn w now).queued = S.queued := by
  unfold InvocationIsolation.turn
  split_ifs
  · rfl
  · rfl
  · rfl

theorem Sound.turned (h : Sound W) {w : Waiter} (hw : w ∈ W.gate.waiting) (now : ℕ) :
    Sound (W.turned (W.gate.turn w now) w.ticket.number) := by
  have I := h.isolated.turn hw now
  by_cases stays : (W.gate.turn w now).waiting.any
      (fun v => v.ticket.number = w.ticket.number) = true
  swap
  · -- it left, and notified everybody
    unfold Watched.turned
    rw [if_neg stays]
    exact .awake I
  have gone : ¬ (W.gate.leave w.ticket.number).waiting.any
      (fun v => v.ticket.number = w.ticket.number) = true := by
    obtain ⟨before, after, hsplit, -, hleave⟩ := waiting_split h.isolated hw
    rw [hleave, List.any_eq_true]
    rintro ⟨v, hv, same⟩
    have order := h.isolated.ordered
    rw [hsplit, List.pairwise_append] at order
    rcases List.mem_append.mp hv with hv | hv
    · exact (order.2.2 v hv w List.mem_cons_self).ne (of_decide_eq_true same)
    · exact (List.rel_of_pairwise_cons order.2.1 hv).ne' (of_decide_eq_true same)
  have waits : W.gate.turn w now = W.gate ∧
      (W.gate.active ++ W.gate.earlier w.ticket.number).any (conflicts w.ticket) = true := by
    unfold InvocationIsolation.turn at stays ⊢
    split_ifs at stays ⊢ with late blocked
    · exact absurd stays gone
    · exact ⟨rfl, blocked⟩
    · exact absurd stays gone
  unfold Watched.turned
  rw [if_pos stays, waits.1]
  have numbered : w.ticket.number < W.gate.queued :=
    h.isolated.numbered _ (mem_tickets.mpr (.inr ⟨w, hw, rfl⟩))
  refine ⟨h.isolated, fun n hn => ?_, fun v hv asleep => ?_⟩
  · rcases List.mem_cons.mp hn with rfl | hn
    · exact numbered
    · exact h.known n hn
  · rcases List.mem_cons.mp asleep with same | asleep
    · -- a number belongs to one waiter
      have distinct : (W.gate.waiting.map fun v => v.ticket.number).Nodup :=
        List.pairwise_map.mpr (h.isolated.ordered.imp fun lt => lt.ne)
      obtain rfl := List.inj_on_of_nodup_map distinct hv hw same
      exact waits.2
    · exact h.blocked v hv asleep

theorem Sound.enter (h : Sound W) {w : Waiter} (hw : w.ticket.number = W.gate.queued)
    (valid : w.ticket.Valid) : Sound
      ⟨{ W.gate with queued := W.gate.queued + 1, waiting := W.gate.waiting ++ [w] },
        W.asleep⟩ where
  isolated := h.isolated.enter hw valid
  known n hn := Nat.lt_succ_of_lt (h.known n hn)
  blocked v hv asleep := by
    have older := h.known _ asleep
    rcases List.mem_append.mp hv with hv | hv
    · have block := h.blocked v hv asleep
      rw [List.any_append, Bool.or_eq_true] at block ⊢
      refine block.imp_right fun block => ?_
      unfold InvocationIsolation.earlier at block ⊢
      obtain ⟨t, ht, conflict⟩ := List.any_eq_true.mp block
      refine List.any_eq_true.mpr ⟨t, ?_, conflict⟩
      obtain ⟨u, hu, rfl⟩ := List.mem_map.mp ht
      refine List.mem_map_of_mem ?_
      rw [List.takeWhile_append]
      split_ifs
      · exact List.mem_append_left _ (List.takeWhile_subset _ hu)
      · exact hu
    · obtain rfl := List.mem_singleton.mp hv
      omega

theorem Sound.step (h : Sound W) (e : Event) : Sound (W.step e) := by
  cases e with
  | acquire executor kind targets deadline now =>
    have enters : ∀ valid : (⟨W.gate.queued, executor, kind, targets⟩ : Ticket).Valid,
        Sound (W.turned (InvocationIsolation.turn { W.gate with
          queued := W.gate.queued + 1
          waiting := W.gate.waiting ++ [⟨⟨W.gate.queued, executor, kind, targets⟩, deadline⟩] }
            ⟨⟨W.gate.queued, executor, kind, targets⟩, deadline⟩ now) W.gate.queued) :=
      fun valid => (h.enter (w := ⟨_, deadline⟩) rfl valid).turned
        (List.mem_append_right _ (List.mem_singleton_self _)) now
    unfold Watched.step
    dsimp only [InvocationIsolation.step]
    cases targets with
    | none =>
      dsimp only
      rw [queued_turn, if_neg (Nat.succ_ne_self _)]
      exact enters (by rintro _ ⟨⟩)
    | some value =>
      cases hv : validateTargets value with
      | ok out =>
        simp only [hv]
        rw [queued_turn, if_neg (Nat.succ_ne_self _)]
        exact enters (valid_of_validate (validateTargets_same hv ▸ hv))
      | error err =>
        simp only [hv, if_true]
        exact h
  | wake number now =>
    unfold Watched.step
    dsimp only [InvocationIsolation.step]
    cases hfind : W.gate.waiting.find? (fun w => w.ticket.number = number) with
    | none =>
      dsimp only
      split_ifs with waits
      · obtain ⟨w, hw, same⟩ := List.any_eq_true.mp waits
        exact absurd same (List.find?_eq_none.mp hfind w hw)
      · exact h
    | some w =>
      have hw := List.mem_of_find?_eq_some hfind
      have same := List.find?_some hfind
      dsimp only
      rw [if_pos (List.any_eq_true.mpr ⟨w, hw, same⟩), ← of_decide_eq_true same]
      exact h.turned hw now
  | interrupt number => exact .awake (isolated_step h.isolated (.interrupt number))
  | release number => exact .awake (isolated_step h.isolated (.release number))

theorem sound_run (events : List Event) : Sound (run events) :=
  List.foldlRecOn events _ (.awake isolated_init) fun _ h e _ => Sound.step h e

end Watched

/-- **No wake-up is lost.**  In every run only those sleep who conflict with a holder or an earlier
waiter, and while nobody holds anything the longest waiting request is awake. -/
theorem sleepers_blocked (events : List Event) :
    (∀ w ∈ (Watched.run events).gate.waiting, w.ticket.number ∈ (Watched.run events).asleep →
      ∃ t ∈ (Watched.run events).gate.active ++
          (Watched.run events).gate.earlier w.ticket.number, conflicts w.ticket t = true) ∧
    ((Watched.run events).gate.active = [] → ∀ w ∈ (Watched.run events).gate.waiting.head?,
      w.ticket.number ∉ (Watched.run events).asleep) := by
  have h := Watched.sound_run events
  refine ⟨fun w hw asleep => List.any_eq_true.mp (h.blocked w hw asleep), fun free w hw asleep => ?_⟩
  obtain ⟨rest, shape⟩ := List.head?_eq_some_iff.mp hw
  have block := h.blocked w (by rw [shape]; exact List.mem_cons_self) asleep
  unfold InvocationIsolation.earlier at block
  rw [free, shape, List.takeWhile_cons_of_neg (by simp)] at block
  cases block

end Metnos.Isolation
