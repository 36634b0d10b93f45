import Mathlib.Data.List.Induction
import GridTick.Proofs.Tracking.Guard
import GridTick.Proofs.Tracking.Members

/-!
# GridTick.Proofs.Tracking.Chronicle — what is tracked, told from the calls and their answers

One thread makes one call after another, and every call is written down with its answer.  An entity is tracked if the
last change that was made to its identity added it.  The tracked entities stand in the order in which they were added,
each as it was given then.

* `Operation`, `Reply`, `Entry`: calls and traversals, their answers, and a line of the chronicle.
* `Shared.perform`, `Shared.performAll`: operations under the lock, one after another.
* `standing`: who is tracked, read off a chronicle.
* `Reply.Right`: the answer and the change that an operation owes; `Tracked.Faithful.perform_right`: it gives them.
* `tracked_chronicled`: after any operations the collection is what the chronicle says, and goes on answering right.
-/

namespace GridTick

/-- What a thread may do with a collection. -/
inductive Operation (E : Type) where
  | call (r : Request E)
  | isEmpty
  /-- A traversal that ends by itself, or is given up after so many entities. -/
  | traverse (limit : Nat)

inductive Reply (E : Type) where
  | answer (a : Response)
  | empty (b : Bool)
  | yielded (seen : List E)

/-- An operation and its answer. -/
structure Entry (E : Type) where
  operation : Operation E
  reply : Reply E

/-! ## Operations one after another -/

section Operations

variable {E I : Type} [Ord I] [Std.TransOrd I] [Identified E I]

/-- An operation takes the lock and gives it back; there is no answer while a traversal holds it. -/
def Shared.perform (s : Shared E I) (op : Operation E) : Option (Reply E × Shared E I) :=
  match s.cursor, op with
  | some _, _ => none
  | none, .call r => (s.call r).map fun (a, s') => (.answer a, s')
  | none, .isEmpty => some (.empty s.tracked.isEmpty, s)
  | none, .traverse limit =>
    let (seen, _, s') := s.begin.read limit
    some (.yielded seen, s'.release)

/-- Operations in order, with the chronicle of them. -/
def Shared.performAll (s : Shared E I) : List (Operation E) → Option (List (Entry E) × Shared E I)
  | [] => some ([], s)
  | op :: rest =>
    match s.perform op with
    | none => none
    | some (reply, s') => (s'.performAll rest).map fun (log, s'') => (⟨op, reply⟩ :: log, s'')

/-- What an operation comes to for a collection whose lock is free. -/
def Tracked.perform (t : Tracked E I) : Operation E → Reply E × Tracked E I
  | .call r => (.answer (t.serve r).1, (t.serve r).2)
  | .isEmpty => (.empty t.isEmpty, t)
  | .traverse limit => (.yielded (t.toList.take limit), t)

def Tracked.performAll (t : Tracked E I) : List (Operation E) → List (Entry E) × Tracked E I
  | [] => ([], t)
  | op :: rest =>
    let (log, t') := (t.perform op).2.performAll rest
    (⟨op, (t.perform op).1⟩ :: log, t')

theorem Shared.perform_free (t : Tracked E I) (op : Operation E) :
    (Shared.ofTracked t).perform op = some ((t.perform op).1, .ofTracked (t.perform op).2) := by
  cases op with
  | call r =>
    have hserve : ((Shared.ofTracked t).post r).serve 0 =
        some ((t.serve r).1, { (Shared.ofTracked t) with tracked := (t.serve r).2 }) := serve_free rfl rfl
    show (((Shared.ofTracked t).post r).serve 0).map (fun (a, s') => (Reply.answer a, s')) = _
    rw [hserve]
    rfl
  | isEmpty => rfl
  | traverse limit =>
    have horder : (Shared.ofTracked t).begin.tracked.toList = [] ++ t.toList := rfl
    have hread := read_ahead horder rfl limit
    show some (Reply.yielded ((Shared.ofTracked t).begin.read limit).1,
      ((Shared.ofTracked t).begin.read limit).2.2.release) = _
    rw [hread]
    rfl

/-- Operations of one thread are all answered, and the lock is free after them. -/
theorem Shared.performAll_free (t : Tracked E I) (ops : List (Operation E)) :
    (Shared.ofTracked t).performAll ops = some ((t.performAll ops).1, .ofTracked (t.performAll ops).2) := by
  induction ops generalizing t with
  | nil => rfl
  | cons op rest ih =>
    unfold performAll
    rw [perform_free]
    dsimp only
    rw [ih]
    rfl

theorem Tracked.performAll_concat (t : Tracked E I) (ops : List (Operation E)) (op : Operation E) :
    t.performAll (ops ++ [op]) =
      ((t.performAll ops).1 ++ [⟨op, ((t.performAll ops).2.perform op).1⟩], ((t.performAll ops).2.perform op).2) := by
  induction ops generalizing t with
  | nil => rfl
  | cons op' rest ih =>
    rw [List.cons_append, performAll, ih]
    rfl

end Operations

/-! ## Who is tracked, by a chronicle -/

section Standing

variable {E I : Type} [Identified E I]

/-- The entity that an operation has added. -/
def Entry.added? : Entry E → Option E
  | ⟨.call (.insert e), .answer (.truth true)⟩ => some e
  | _ => none

/-- The identity whose entity an operation has added or dropped. -/
def Entry.changed? : Entry E → Option I
  | ⟨.call (.insert e), .answer (.truth true)⟩ => some (identity e)
  | ⟨.call (.remove e), .answer (.truth true)⟩ => some (identity e)
  | _ => none

variable [DecidableEq I]

/-- The entities that were added and whose identity nothing has changed since, in the order in which they were added. -/
def standing : List (Entry E) → List E
  | [] => []
  | x :: later =>
    match x.added? with
    | some e => if identity e ∈ later.filterMap Entry.changed? then standing later else e :: standing later
    | none => standing later

/-- One more operation ends the standing of the identity that it changes, and puts what it adds at the end. -/
theorem standing_concat (log : List (Entry E)) (x : Entry E) :
    standing (log ++ [x]) = (standing log).filter (fun e => x.changed? ≠ some (identity e)) ++ x.added?.toList := by
  induction log with
  | nil =>
    simp only [List.nil_append, standing]
    cases x.added? with
    | none => rfl
    | some e => simp
  | cons y later ih =>
    rw [List.cons_append, standing, standing]
    cases y.added? with
    | none => exact ih
    | some e =>
      have hmem : identity e ∈ (later ++ [x]).filterMap Entry.changed? ↔
          identity e ∈ later.filterMap Entry.changed? ∨ x.changed? = some (identity e) := by
        rw [List.filterMap_append, List.mem_append]
        simp
      dsimp only
      rw [ih]
      by_cases hlater : identity e ∈ later.filterMap Entry.changed?
      · rw [if_pos hlater, if_pos (hmem.mpr (.inl hlater))]
      · rw [if_neg hlater, List.filter_cons]
        by_cases hx : x.changed? = some (identity e)
        · rw [if_pos (hmem.mpr (.inr hx)), if_neg (by simpa using hx)]
        · rw [if_neg (hmem.not.mpr (not_or.mpr ⟨hlater, hx⟩)), if_pos (by simpa using hx)]
          rfl

end Standing

/-! ## What an operation owes -/

section Right

variable {E I : Type} [Ord I] [Identified E I] [DecidableEq I] {t t' : Tracked E I}

/-- The answer of an operation on `t` that leaves `t'`, and what it changes.  Of two entities with one identity the
earlier one stays, in its place. -/
def Reply.Right (t t' : Tracked E I) : Operation E → Reply E → Prop
  | .call (.insert e), reply => ∃ b, reply = .answer (.truth b) ∧ (b = true ↔ ∀ e' ∈ t.toList, identity e' ≠ identity e) ∧
      t'.toList = t.toList ++ if b then [e] else []
  | .call (.remove e), reply => ∃ b, reply = .answer (.truth b) ∧ (b = true ↔ ∃ e' ∈ t.toList, identity e' = identity e) ∧
      t'.toList = t.toList.filter fun e' => identity e' ≠ identity e
  | .call (.contains e), reply => ∃ b, reply = .answer (.truth b) ∧
      (b = true ↔ ∃ e' ∈ t.toList, identity e' = identity e) ∧ t' = t
  | .call .count, reply => reply = .answer (.number t.toList.length) ∧ t' = t
  | .isEmpty, reply => ∃ b, reply = .empty b ∧ (b = true ↔ t.toList = []) ∧ t' = t
  | .traverse limit, reply => reply = .yielded (t.toList.take limit) ∧ t' = t

/-- What a right answer says of the change is what the chronicle makes of it. -/
theorem Reply.Right.toList {op : Operation E} {reply : Reply E} (h : Reply.Right t t' op reply) :
    let x : Entry E := ⟨op, reply⟩
    t'.toList = t.toList.filter (fun e => x.changed? ≠ some (identity e)) ++ x.added?.toList := by
  intro x
  have hquiet : x.changed? = none → x.added? = none → t' = t →
      t'.toList = t.toList.filter (fun e => x.changed? ≠ some (identity e)) ++ x.added?.toList := by
    intro hchanged hadded heq
    rw [hchanged, hadded, heq]
    simp
  cases op with
  | call r =>
    cases r with
    | insert e =>
      obtain ⟨b, rfl, hb, hlist⟩ := h
      rw [hlist]
      cases b with
      | false => simp [x, Entry.changed?, Entry.added?]
      | true =>
        have hnew := hb.mp rfl
        have hall : t.toList.filter (fun e' => x.changed? ≠ some (identity e')) = t.toList := by
          refine List.filter_eq_self.mpr fun e' he' => ?_
          simpa [x, Entry.changed?] using (hnew e' he').symm
        rw [hall]
        rfl
    | remove e =>
      obtain ⟨b, rfl, hb, hlist⟩ := h
      rw [hlist]
      cases b with
      | false =>
        have hall : t.toList.filter (fun e' => identity e' ≠ identity e) = t.toList := by
          refine List.filter_eq_self.mpr fun e' he' => ?_
          have hne : identity e' ≠ identity e := fun hid => Bool.false_ne_true (hb.mpr ⟨e', he', hid⟩)
          simpa using hne
        rw [hall]
        simp [x, Entry.changed?, Entry.added?]
      | true => simp [x, Entry.changed?, Entry.added?, eq_comm]
    | contains e =>
      obtain ⟨b, rfl, -, heq⟩ := h
      exact hquiet rfl rfl heq
    | count =>
      obtain ⟨rfl, heq⟩ := h
      exact hquiet rfl rfl heq
  | isEmpty =>
    obtain ⟨b, rfl, -, heq⟩ := h
    exact hquiet rfl rfl heq
  | traverse limit =>
    obtain ⟨rfl, heq⟩ := h
    exact hquiet rfl rfl heq

variable [Std.TransOrd I]

omit [DecidableEq I] in
theorem Tracked.Faithful.insert_eq_true_iff (h : t.Faithful) (e : E) :
    (t.insert e).1 = true ↔ ∀ e' ∈ t.toList, identity e' ≠ identity e := by
  unfold Tracked.insert
  by_cases hcontains : t.contains e = true
  · obtain ⟨e', he', hid⟩ := h.contains_iff.mp hcontains
    rw [if_pos hcontains]
    exact iff_of_false Bool.false_ne_true fun hnew => hnew e' he' hid
  · rw [if_neg hcontains]
    exact iff_of_true rfl fun e' he' hid => hcontains (h.contains_iff.mpr ⟨e', he', hid⟩)

variable [Std.LawfulEqOrd I]

omit [DecidableEq I] in
theorem Tracked.Faithful.perform (h : t.Faithful) (op : Operation E) : (t.perform op).2.Faithful := by
  cases op with
  | call r =>
    cases r with
    | insert e => exact h.insert e
    | remove e => exact h.remove e
    | contains e => exact h
    | count => exact h
  | isEmpty => exact h
  | traverse limit => exact h

theorem Tracked.Faithful.toList_remove (h : t.Faithful) (e : E) :
    (t.remove e).2.toList = t.toList.filter fun e' => identity e' ≠ identity e := by
  unfold Tracked.remove
  by_cases hcontains : t.contains e = true
  · rw [if_pos hcontains, Tracked.toList, Array.toList_filter]
    refine List.filter_congr fun e' _ => ?_
    rw [Bool.eq_iff_iff]
    simp [Std.LawfulEqCmp.compare_eq_iff_eq]
  · rw [if_neg hcontains]
    refine (List.filter_eq_self.mpr fun e' he' => ?_).symm
    have hne : identity e' ≠ identity e := fun hid => hcontains (h.contains_iff.mpr ⟨e', he', hid⟩)
    simpa using hne

theorem Tracked.Faithful.perform_right (h : t.Faithful) (op : Operation E) :
    Reply.Right t (t.perform op).2 op (t.perform op).1 := by
  cases op with
  | call r =>
    cases r with
    | insert e =>
      refine ⟨(t.insert e).1, rfl, h.insert_eq_true_iff e, ?_⟩
      show (t.insert e).2.toList = _
      unfold Tracked.insert
      by_cases hcontains : t.contains e = true
      · rw [if_pos hcontains]
        simp
      · rw [if_neg hcontains]
        simp [Tracked.toList]
    | remove e =>
      refine ⟨(t.remove e).1, rfl, ?_, h.toList_remove e⟩
      rw [← h.contains_iff]
      unfold Tracked.remove
      by_cases hcontains : t.contains e = true
      · simp [hcontains]
      · simp [hcontains]
    | contains e => exact ⟨t.contains e, rfl, h.contains_iff, rfl⟩
    | count => exact ⟨rfl, rfl⟩
  | isEmpty =>
    refine ⟨t.isEmpty, rfl, ?_, rfl⟩
    show t.order.isEmpty = true ↔ t.order.toList = []
    simp
  | traverse limit => exact ⟨rfl, rfl⟩

/-- Along a run the collection stays faithful, and holds what the chronicle says. -/
theorem Tracked.performAll_standing (ops : List (Operation E)) :
    let ran := (Tracked.empty : Tracked E I).performAll ops
    ran.2.Faithful ∧ ran.2.toList = standing ran.1 := by
  induction ops using List.reverseRecOn with
  | nil => exact ⟨faithful_empty, rfl⟩
  | append_singleton ops op ih =>
    obtain ⟨hfaithful, hstanding⟩ := ih
    rw [performAll_concat]
    refine ⟨hfaithful.perform op, ?_⟩
    rw [standing_concat, ← hstanding]
    exact (hfaithful.perform_right op).toList

end Right

/-- All operations that one thread makes on a collection are answered.  After any number of them, no two tracked entities
have one identity, the set of identities is that of the tracked entities, these are the ones that the chronicle has added
last, in that order, and the next operation gives the right answer and makes the right change.  Dropping an entity and
adding one of its identity puts that one at the end. -/
theorem tracked_chronicled {E I : Type} [Ord I] [Std.TransOrd I] [Std.LawfulEqOrd I] [DecidableEq I] [Identified E I]
    (before : List (Operation E)) :
    ∃ (log : List (Entry E)) (t : Tracked E I),
      (Shared.ofTracked Tracked.empty).performAll before = some (log, .ofTracked t) ∧
      (t.toList.map identity).Nodup ∧ (∀ i, i ∈ t.members ↔ ∃ e ∈ t.toList, identity e = i) ∧ t.toList = standing log ∧
      (∀ op, ∃ reply t', (Shared.ofTracked t).perform op = some (reply, .ofTracked t') ∧ reply.Right t t' op) ∧
      ∀ e e', identity e' = identity e → ∃ changes t',
        (Shared.ofTracked t).performAll [.call (.remove e), .call (.insert e')] = some (changes, .ofTracked t') ∧
        t'.toList = (t.toList.filter fun o => identity o ≠ identity e) ++ [e'] := by
  obtain ⟨hfaithful, hstanding⟩ := Tracked.performAll_standing (I := I) before
  refine ⟨_, _, Shared.performAll_free _ before, hfaithful.once, hfaithful.present, hstanding, fun op => ?_, ?_⟩
  · exact ⟨_, _, Shared.perform_free _ op, hfaithful.perform_right op⟩
  · intro e e' hid
    refine ⟨_, _, Shared.performAll_free _ _, ?_⟩
    have hdropped := hfaithful.toList_remove e
    obtain ⟨b, -, hb, hlist⟩ := (hfaithful.remove e).perform_right (.call (.insert e'))
    rw [hdropped] at hb hlist
    obtain rfl : b = true := hb.mpr fun o ho heq => by simpa [heq, hid] using (List.mem_filter.mp ho).2
    exact hlist

/-- An entity is refused because its identity is there already; once that one is dropped, it goes to the end. -/
theorem tracked_chronicled_labelled :
    let before : List (Operation Labelled) := [.call (.insert ⟨1, 10⟩), .call (.insert ⟨2, 20⟩), .call (.insert ⟨1, 99⟩),
      .call (.remove ⟨1, 0⟩), .call (.remove ⟨1, 0⟩), .call (.insert ⟨1, 30⟩), .traverse 5]
    ∃ (log : List (Entry Labelled)) (t : Tracked Labelled Nat),
      (Shared.ofTracked Tracked.empty).performAll before = some (log, .ofTracked t) ∧
      t.toList = standing log ∧ t.toList = [⟨2, 20⟩, ⟨1, 30⟩] := by
  intro before
  obtain ⟨log, t, hrun, -, -, hstanding, -⟩ := tracked_chronicled (I := Nat) before
  refine ⟨log, t, hrun, hstanding, ?_⟩
  have heval : ((Shared.ofTracked (Tracked.empty : Tracked Labelled Nat)).performAll before).map
      (fun ran => ran.2.tracked.toList) = some [⟨2, 20⟩, ⟨1, 30⟩] := by decide +kernel
  rw [hrun] at heval
  exact Option.some.inj heval

end GridTick
