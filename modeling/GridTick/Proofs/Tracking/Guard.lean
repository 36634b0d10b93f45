import Mathlib.Data.List.InsertIdx
import Mathlib.Data.List.Nodup
import Mathlib.Data.List.Perm.Basic
import GridTick.Tracking.Shared

/-!
# GridTick.Proofs.Tracking.Guard — traversals that hold the lock

However the steps of traversals fall among the calls of other threads, a traversal sees the entities in the order in
which they stood when it took the lock, no call takes effect before it gives the lock back, and the calls that had to wait
take effect after that, each of them once.

* `Move`: what one of the threads does next; `Book.step`, `Book.run`: moves with an account of what they brought about.
* `Book.Sound`: the account is right.  `Book.Sound.step` and `Book.Sound.run` keep it.
* `Book.run_held`: nothing but the traversal goes on while it holds the lock.
* `Book.Traverses`: how far a traversal is, and what it says of the rest.
* `traversal_guarded`: all that befalls a traversal and the calls around it.
-/

namespace GridTick

/-- What one of the threads does next. -/
inductive Move (E : Type) where
  /-- Take the lock for a traversal; nothing happens while another holds it. -/
  | begin
  | next
  /-- Give the lock back, wherever the traversal stands. -/
  | release
  | post (r : Request E)
  /-- Let one of the waiting calls take effect; nothing happens while a traversal is under way. -/
  | serve (i : Nat)

/-- A call that took effect, with its number in the order of posting. -/
structure Answered (E : Type) where
  call : Request E × Nat
  answer : Response

/-- A shared collection, and what the moves so far have brought about. -/
structure Book (E I : Type) [Ord I] where
  shared : Shared E I
  /-- What the traversal under way has yielded, or else the one before it. -/
  seen : List E
  posted : List (Request E)
  /-- The calls that wait, with their numbers. -/
  waiting : List (Request E × Nat)
  served : List (Answered E)

variable {E I : Type} [Ord I] {s : Shared E I} {seen ahead : List E}

/-! ## A traversal of the collection -/

theorem Shared.advance_ahead (horder : s.tracked.toList = seen ++ ahead) (hcursor : s.cursor = some seen.length) :
    s.advance = (ahead.head?, { s with cursor := some (seen ++ ahead.head?.toList).length }) := by
  have hget : s.tracked.order[seen.length]? = ahead.head? := by
    rw [← Array.getElem?_toList]
    change s.tracked.toList[seen.length]? = ahead.head?
    rw [horder, List.getElem?_append_right (Nat.le_refl _), Nat.sub_self, List.head?_eq_getElem?]
  rw [advance, hcursor]
  simp only [hget]
  cases ahead with
  | nil => simp [← hcursor]
  | cons e rest => simp

theorem Shared.sizeHint_ahead (horder : s.tracked.toList = seen ++ ahead) (hcursor : s.cursor = some seen.length) :
    s.sizeHint = (ahead.length, some ahead.length) := by
  have hsize : s.tracked.size = seen.length + ahead.length := by
    rw [← List.length_append, ← horder]
    rfl
  simp [sizeHint, hcursor, hsize]

/-- What a traversal reads at one go: as many as are asked for, and before each and at last the number still to come. -/
theorem Shared.read_ahead (horder : s.tracked.toList = seen ++ ahead) (hcursor : s.cursor = some seen.length) (limit : Nat) :
    s.read limit = (ahead.take limit,
      (List.range ((ahead.take limit).length + 1)).map fun k => (ahead.length - k, some (ahead.length - k)),
      { s with cursor := some (seen ++ ahead.take limit).length }) := by
  induction limit generalizing s seen ahead with
  | zero => simp [read, sizeHint_ahead horder hcursor, ← hcursor]
  | succ limit ih =>
    rw [read, advance_ahead horder hcursor, sizeHint_ahead horder hcursor]
    cases ahead with
    | nil => simp [← hcursor]
    | cons e rest =>
      have horder' : s.tracked.toList = (seen ++ [e]) ++ rest := by rw [horder, List.append_assoc]; rfl
      have hread := ih (s := { s with cursor := some (seen ++ [e]).length }) horder' rfl
      have hhints : (List.range ((rest.take limit).length + 1 + 1)).map
          (fun k => (rest.length + 1 - k, some (rest.length + 1 - k))) =
          (rest.length + 1, some (rest.length + 1)) ::
            (List.range ((rest.take limit).length + 1)).map fun k => (rest.length - k, some (rest.length - k)) := by
        rw [List.range_succ_eq_map]
        simp
      simp only [List.head?_cons, Option.toList_some, hread, List.take_succ_cons, List.length_cons, hhints,
        List.append_assoc, List.singleton_append]

variable [Std.TransOrd I] [Identified E I] {t : Tracked E I} {b : Book E I}

theorem Shared.serve_held (h : s.cursor ≠ none) (i : Nat) : s.serve i = none := by
  unfold serve
  cases hcursor : s.cursor with
  | none => exact absurd hcursor h
  | some place => rfl

theorem Shared.serve_free {r : Request E} {i : Nat} (h : s.cursor = none) (hwaiting : s.waiting[i]? = some r) :
    s.serve i = some ((s.tracked.serve r).1,
      { s with tracked := (s.tracked.serve r).2, waiting := s.waiting.eraseIdx i }) := by
  rw [serve, h, hwaiting]

theorem Shared.serve_absent {i : Nat} (h : s.waiting[i]? = none) : s.serve i = none := by
  rw [serve, h]
  cases s.cursor <;> rfl

/-- Calls that take effect one after another: their answers, and the collection that they leave. -/
def Tracked.serveAll (t : Tracked E I) : List (Request E) → List Response × Tracked E I
  | [] => ([], t)
  | r :: rest =>
    let (answers, t') := (t.serve r).2.serveAll rest
    ((t.serve r).1 :: answers, t')

theorem Tracked.serveAll_concat (t : Tracked E I) (requests : List (Request E)) (r : Request E) :
    t.serveAll (requests ++ [r]) =
      ((t.serveAll requests).1 ++ [((t.serveAll requests).2.serve r).1], ((t.serveAll requests).2.serve r).2) := by
  induction requests generalizing t with
  | nil => rfl
  | cons r' rest ih =>
    rw [List.cons_append, serveAll, ih]
    rfl

namespace Book

/-- Before the first move. -/
def start (t : Tracked E I) : Book E I := ⟨.ofTracked t, [], [], [], []⟩

def step (b : Book E I) : Move E → Book E I
  | .begin => { b with shared := b.shared.begin, seen := if b.shared.cursor.isNone then [] else b.seen }
  | .next => { b with shared := b.shared.advance.2, seen := b.seen ++ b.shared.advance.1.toList }
  | .release => { b with shared := b.shared.release }
  | .post r =>
    { b with shared := b.shared.post r, posted := b.posted ++ [r], waiting := b.waiting ++ [(r, b.posted.length)] }
  | .serve i =>
    match b.shared.serve i with
    | none => b
    | some (answer, s) =>
      { b with
        shared := s
        waiting := b.waiting.eraseIdx i
        served := b.served ++ (b.waiting[i]?.map fun call => ⟨call, answer⟩).toList }

def run (b : Book E I) (moves : List (Move E)) : Book E I := moves.foldl step b

/-- The account of what befell a collection that was `t` at the beginning is right. -/
structure Sound (t : Tracked E I) (b : Book E I) : Prop where
  waiting : b.shared.waiting = b.waiting.map Prod.fst
  /-- Each call waits or has taken effect, and that once. -/
  once : (b.waiting ++ b.served.map Answered.call).Perm b.posted.zipIdx
  /-- The calls took effect one after another. -/
  effects : t.serveAll (b.served.map fun x => x.call.1) = (b.served.map Answered.answer, b.shared.tracked)
  /-- A traversal stands behind what it has yielded, and this is how the collection begins. -/
  traversal : ∀ place, b.shared.cursor = some place → place = b.seen.length ∧ b.seen <+: b.shared.tracked.toList

theorem sound_start (t : Tracked E I) : (start t).Sound t :=
  ⟨rfl, List.Perm.refl _, rfl, nofun⟩

/-- While no traversal is under way, any of the waiting calls may take effect. -/
theorem Sound.step_serve (h : b.Sound t) {i n : Nat} {r : Request E} (hfree : b.shared.cursor = none)
    (hcall : b.waiting[i]? = some (r, n)) :
    b.step (.serve i) =
      { b with
        shared := ⟨(b.shared.tracked.serve r).2, none, b.shared.waiting.eraseIdx i⟩
        waiting := b.waiting.eraseIdx i
        served := b.served ++ [⟨(r, n), (b.shared.tracked.serve r).1⟩] } := by
  have hwaiting : b.shared.waiting[i]? = some r := by rw [h.waiting, List.getElem?_map, hcall, Option.map_some]
  rw [Book.step, Shared.serve_free hfree hwaiting, hcall, hfree]
  rfl

/-- Nothing else can take effect. -/
theorem Sound.serve_cases (h : b.Sound t) (i : Nat) :
    b.step (.serve i) = b ∨ ∃ r n, b.shared.cursor = none ∧ b.waiting[i]? = some (r, n) := by
  cases hcursor : b.shared.cursor with
  | some place => exact .inl (by rw [Book.step, Shared.serve_held (hcursor ▸ Option.some_ne_none place)])
  | none =>
    cases hcall : b.waiting[i]? with
    | some call => exact .inr ⟨call.1, call.2, rfl, rfl⟩
    | none =>
      have hwaiting : b.shared.waiting[i]? = none := by rw [h.waiting, List.getElem?_map, hcall, Option.map_none]
      exact .inl (by rw [Book.step, Shared.serve_absent hwaiting])

theorem Sound.step (h : b.Sound t) (m : Move E) : (b.step m).Sound t := by
  obtain ⟨hwaiting, honce, heffects, htraversal⟩ := h
  cases m with
  | begin =>
    cases hcursor : b.shared.cursor with
    | none =>
      have hbegin : b.shared.begin = { b.shared with cursor := some 0 } := by rw [Shared.begin, hcursor]
      simp only [Book.step, hbegin, hcursor]
      exact ⟨hwaiting, honce, heffects, fun place hplace => ⟨(Option.some.inj hplace).symm, List.nil_prefix⟩⟩
    | some place =>
      have hbegin : b.shared.begin = b.shared := by rw [Shared.begin, hcursor]
      simp only [Book.step, hbegin, hcursor]
      exact ⟨hwaiting, honce, heffects, htraversal⟩
  | next =>
    cases hcursor : b.shared.cursor with
    | none =>
      have hadvance : b.shared.advance = (none, b.shared) := by rw [Shared.advance, hcursor]
      simp only [Book.step, hadvance, Option.toList_none, List.append_nil]
      exact ⟨hwaiting, honce, heffects, htraversal⟩
    | some place =>
      obtain ⟨rfl, ahead, horder⟩ := htraversal place hcursor
      simp only [Book.step, Shared.advance_ahead horder.symm hcursor]
      refine ⟨hwaiting, honce, heffects, fun place hplace => ⟨(Option.some.inj hplace).symm, ?_⟩⟩
      refine ⟨ahead.tail, ?_⟩
      rw [← horder, List.append_assoc]
      cases ahead <;> rfl
  | release => exact ⟨hwaiting, honce, heffects, nofun⟩
  | post r =>
    refine ⟨?_, ?_, heffects, htraversal⟩
    · simp [Book.step, Shared.post, hwaiting]
    · have hnew : (b.posted ++ [r]).zipIdx = b.posted.zipIdx ++ [(r, b.posted.length)] := by simp [List.zipIdx_append]
      simp only [Book.step, hnew]
      rw [List.append_assoc]
      refine (List.Perm.append_left _ List.perm_append_comm).trans ?_
      rw [← List.append_assoc]
      exact honce.append_right _
  | serve i =>
    have hb : b.Sound t := ⟨hwaiting, honce, heffects, htraversal⟩
    rcases hb.serve_cases i with heq | ⟨r, n, hfree, hcall⟩
    · rw [heq]
      exact hb
    · rw [hb.step_serve hfree hcall]
      refine ⟨?_, ?_, ?_, nofun⟩
      · change b.shared.waiting.eraseIdx i = (b.waiting.eraseIdx i).map Prod.fst
        rw [hwaiting, List.eraseIdx_map]
      · -- the call moves from those that wait to those that took effect
        obtain ⟨hi, hget⟩ := List.getElem?_eq_some_iff.mp hcall
        have htaken : ((r, n) :: b.waiting.eraseIdx i).Perm b.waiting := hget ▸ List.getElem_cons_eraseIdx_perm hi
        rw [List.map_append, List.map_singleton, ← List.append_assoc]
        calc (b.waiting.eraseIdx i ++ b.served.map Answered.call ++ [(r, n)]).Perm
              ((r, n) :: b.waiting.eraseIdx i ++ b.served.map Answered.call) := List.perm_append_singleton _ _
          _ |>.Perm (b.waiting ++ b.served.map Answered.call) := htaken.append_right _
          _ |>.Perm b.posted.zipIdx := honce
      · rw [List.map_append, List.map_append, List.map_singleton, List.map_singleton, Tracked.serveAll_concat, heffects]

theorem Sound.run (h : b.Sound t) (moves : List (Move E)) : (b.run moves).Sound t := by
  induction moves generalizing b with
  | nil => exact h
  | cons m rest ih => exact ih (h.step m)

/-! ## While a traversal holds the lock -/

/-- From `b` to `b'` a traversal held the lock, and nothing but it went on. -/
structure Since (b b' : Book E I) : Prop where
  held : b'.shared.cursor ≠ none
  tracked : b'.shared.tracked = b.shared.tracked
  served : b'.served = b.served
  seen : b.seen <+: b'.seen

omit [Std.TransOrd I] [Identified E I] in
theorem Since.trans {b₁ b₂ b₃ : Book E I} (h : Since b₁ b₂) (h' : Since b₂ b₃) : Since b₁ b₃ :=
  ⟨h'.held, h'.tracked.trans h.tracked, h'.served.trans h.served, h.seen.trans h'.seen⟩

theorem step_held (h : b.shared.cursor ≠ none) {m : Move E} (hm : m ≠ .release) : Since b (b.step m) := by
  obtain ⟨place, hcursor⟩ := Option.ne_none_iff_exists'.mp h
  cases m with
  | begin =>
    have hbegin : b.shared.begin = b.shared := by rw [Shared.begin, hcursor]
    simp only [step, hbegin, hcursor]
    exact ⟨h, rfl, rfl, List.prefix_rfl⟩
  | next =>
    have hadvance : b.shared.advance.2.cursor ≠ none ∧ b.shared.advance.2.tracked = b.shared.tracked := by
      unfold Shared.advance
      rw [hcursor]
      dsimp only
      cases b.shared.tracked.order[place]? with
      | none => exact ⟨h, rfl⟩
      | some e => exact ⟨Option.some_ne_none _, rfl⟩
    exact ⟨hadvance.1, hadvance.2, rfl, List.prefix_append _ _⟩
  | release => exact absurd rfl hm
  | post r => exact ⟨h, rfl, rfl, List.prefix_rfl⟩
  | serve i =>
    rw [step, Shared.serve_held h]
    exact ⟨h, rfl, rfl, List.prefix_rfl⟩

theorem run_held (h : b.shared.cursor ≠ none) {moves : List (Move E)} (hmoves : .release ∉ moves) :
    Since b (b.run moves) := by
  induction moves generalizing b with
  | nil => exact ⟨h, rfl, rfl, List.prefix_rfl⟩
  | cons m rest ih =>
    obtain ⟨hm, hrest⟩ := not_or.mp (List.mem_cons.not.mp hmoves)
    have hstep := step_held h (Ne.symm hm)
    exact hstep.trans (ih hstep.held hrest)

/-- A traversal of `order` is under way, and `ahead` is still to come. -/
structure Traverses (b : Book E I) (order ahead : List E) : Prop where
  order : b.seen ++ ahead = order
  cursor : b.shared.cursor = some b.seen.length
  /-- The place never passes the end, so that nothing is cut off at zero when the rest is counted. -/
  left : b.seen.length + ahead.length = b.shared.tracked.size
  hint : b.shared.sizeHint = (ahead.length, some ahead.length)
  next : b.shared.advance.1 = ahead.head?

theorem Sound.traverses (h : b.Sound t) (hheld : b.shared.cursor ≠ none) :
    ∃ ahead, b.Traverses b.shared.tracked.toList ahead := by
  obtain ⟨place, hcursor⟩ := Option.ne_none_iff_exists'.mp hheld
  obtain ⟨rfl, ahead, horder⟩ := h.traversal place hcursor
  refine ⟨ahead, horder, hcursor, ?_, Shared.sizeHint_ahead horder.symm hcursor, ?_⟩
  · rw [← List.length_append, horder]
    rfl
  · rw [Shared.advance_ahead horder.symm hcursor]

/-- A traversal that yields nothing more has yielded everything, and stays at the end. -/
theorem Sound.at_end (h : b.Sound t) (hheld : b.shared.cursor ≠ none) (hnext : b.shared.advance.1 = none) :
    b.seen = b.shared.tracked.toList ∧
      ∀ more, .release ∉ more → (b.run more).Traverses b.shared.tracked.toList [] := by
  obtain ⟨ahead, htraverses⟩ := h.traverses hheld
  obtain rfl : ahead = [] := List.head?_eq_none_iff.mp (htraverses.next.symm.trans hnext)
  have hseen : b.seen = b.shared.tracked.toList := (List.append_nil _).symm.trans htraverses.order
  refine ⟨hseen, fun more hmore => ?_⟩
  have hsince := run_held hheld hmore
  obtain ⟨ahead, htraverses'⟩ := (h.run more).traverses hsince.held
  rw [hsince.tracked] at htraverses'
  -- what has been yielded is all there is, and none of it is taken back
  have hlength := congrArg List.length htraverses'.order
  rw [List.length_append, ← hseen] at hlength
  have hgrown := hsince.seen.length_le
  obtain rfl : ahead = [] := List.eq_nil_of_length_eq_zero (by omega)
  exact htraverses'

/-! ## Calls that had to wait -/

theorem grown_step (b : Book E I) (m : Move E) : b.served <+: (b.step m).served ∧ b.posted <+: (b.step m).posted := by
  cases m with
  | post r => exact ⟨List.prefix_rfl, List.prefix_append _ _⟩
  | serve i =>
    rw [step]
    cases b.shared.serve i with
    | none => exact ⟨List.prefix_rfl, List.prefix_rfl⟩
    | some served => exact ⟨List.prefix_append _ _, List.prefix_rfl⟩
  | _ => exact ⟨List.prefix_rfl, List.prefix_rfl⟩

theorem grown_run (b : Book E I) (moves : List (Move E)) :
    b.served <+: (b.run moves).served ∧ b.posted <+: (b.run moves).posted := by
  induction moves generalizing b with
  | nil => exact ⟨List.prefix_rfl, List.prefix_rfl⟩
  | cons m rest ih => exact ⟨(grown_step b m).1.trans (ih _).1, (grown_step b m).2.trans (ih _).2⟩

theorem Sound.nodup (h : b.Sound t) : (b.waiting ++ b.served.map Answered.call).Nodup := by
  refine h.once.nodup_iff.mpr (List.Nodup.of_map Prod.snd ?_)
  rw [List.zipIdx_map_snd]
  exact List.nodup_range'

/-- A call that waits goes on waiting or takes effect later, and that once. -/
theorem Sound.later (h : b.Sound t) (moves : List (Move E)) :
    ∃ later, (b.run moves).served = b.served ++ later ∧ (later.map Answered.call).Nodup ∧
      ∀ call ∈ b.waiting, (call ∈ (b.run moves).waiting ↔ call ∉ later.map Answered.call) := by
  have h' := h.run moves
  obtain ⟨⟨later, hserved⟩, fresh, hposted⟩ := grown_run b moves
  have hnodup := h'.nodup
  rw [← hserved, List.map_append] at hnodup
  obtain ⟨-, hafter, hapart⟩ := List.nodup_append.mp hnodup
  refine ⟨later, hserved.symm, (List.nodup_append.mp hafter).2.1, fun call hcall => ⟨fun hwaits hlater => ?_, fun hnot => ?_⟩⟩
  · exact hapart call hwaits call (List.mem_append_right _ hlater) rfl
  · have hbefore : call ∉ b.served.map Answered.call := fun hmem =>
      (List.nodup_append.mp h.nodup).2.2 call hcall call hmem rfl
    have hnumbered : call ∈ (b.run moves).posted.zipIdx := by
      rw [← hposted, List.zipIdx_append]
      exact List.mem_append_left _ (h.once.mem_iff.mp (List.mem_append_left _ hcall))
    have hmem := h'.once.mem_iff.mpr hnumbered
    rw [← hserved, List.map_append] at hmem
    simpa [hbefore, hnot] using hmem

/-- Once the lock is free, all waiting calls can take effect, one after another. -/
theorem Sound.exists_serves (h : b.Sound t) (hfree : b.shared.cursor = none) :
    ∃ turns : List Nat, (b.run (turns.map .serve)).waiting = [] := by
  induction hwaiting : b.waiting generalizing b with
  | nil => exact ⟨[], hwaiting⟩
  | cons call rest ih =>
    have hcall : b.waiting[0]? = some (call.1, call.2) := by rw [hwaiting]; rfl
    have hstep := h.step_serve hfree hcall
    obtain ⟨turns, hturns⟩ := ih (h.step (.serve 0)) (by rw [hstep]) (by rw [hstep, hwaiting]; rfl)
    exact ⟨0 :: turns, hturns⟩

end Book

/-- However the moves of traversals and of other calls fall, the account of the calls is right.  When the lock is free, any
waiting call may take effect.  When a traversal takes the lock instead, then until it gives it back no call takes effect,
what it has yielded is how the collection began when it took the lock, its hint is what is still to come, and at the end
it stays there.  A call that had to wait takes effect after that, and once; and all of them can. -/
theorem traversal_guarded (t : Tracked E I) (before : List (Move E)) :
    let b := (Book.start t).run before
    b.Sound t ∧
      (b.shared.cursor = none →
        (∀ i r n, b.waiting[i]? = some (r, n) →
          (b.step (.serve i)).served = b.served ++ [⟨(r, n), (b.shared.tracked.serve r).1⟩] ∧
            (b.step (.serve i)).shared.tracked = (b.shared.tracked.serve r).2) ∧
        ∀ during, .release ∉ during →
          let b' := (b.step .begin).run during
          (b'.shared.tracked = b.shared.tracked ∧ b'.served = b.served) ∧
            (∃ ahead, b'.Traverses b.shared.tracked.toList ahead) ∧
            (b'.shared.advance.1 = none → b'.seen = b.shared.tracked.toList ∧
              ∀ more, .release ∉ more → (b'.run more).Traverses b.shared.tracked.toList []) ∧
            (∀ after, ∃ later, ((b'.step .release).run after).served = b'.served ++ later ∧
              (later.map Answered.call).Nodup ∧
              ∀ call ∈ b'.waiting, (call ∈ ((b'.step .release).run after).waiting ↔ call ∉ later.map Answered.call)) ∧
            ∃ turns : List Nat, ((b'.step .release).run (turns.map .serve)).waiting = []) := by
  intro b
  have hb : b.Sound t := (Book.sound_start t).run before
  refine ⟨hb, fun hfree => ⟨fun i r n hcall => ?_, fun during hduring => ?_⟩⟩
  · rw [hb.step_serve hfree hcall]
    exact ⟨rfl, rfl⟩
  · intro b'
    have hbegin : (b.step .begin).shared = { b.shared with cursor := some 0 } := by
      simp only [Book.step, Shared.begin, hfree]
    have hheld : (b.step .begin).shared.cursor ≠ none := by
      rw [hbegin]
      exact Option.some_ne_none 0
    have hsince := Book.run_held hheld hduring
    have hb' : b'.Sound t := (hb.step .begin).run during
    have htracked : b'.shared.tracked = b.shared.tracked := by rw [hsince.tracked, hbegin]
    refine ⟨⟨htracked, hsince.served⟩, ?_, fun hnext => ?_, fun after => ?_, ?_⟩
    · exact htracked ▸ hb'.traverses hsince.held
    · exact htracked ▸ hb'.at_end hsince.held hnext
    · exact (hb'.step .release).later after
    · exact (hb'.step .release).exists_serves rfl

/-- An entity with a label, which is not part of its identity. -/
structure Labelled where
  id : Nat
  label : Nat
deriving DecidableEq

instance : Identified Labelled Nat := ⟨Labelled.id⟩

/-- Two entities, and a traversal of both.  One call is refused for its identity before it; three wait for its end, and
they take effect in another order than they were posted in. -/
theorem traversal_guarded_labelled :
    let b := (Book.start (.ofList [⟨1, 10⟩, ⟨2, 20⟩] : Tracked Labelled Nat)).run [.post (.insert ⟨2, 99⟩), .serve 0]
    let b' := (b.step .begin).run [.next, .post (.remove ⟨1, 0⟩), .serve 0, .post (.insert ⟨3, 30⟩), .next, .post .count]
    let b'' := (b'.step .release).run [.serve 1, .serve 1, .serve 0]
    b.shared.cursor = none ∧ b'.shared.tracked = b.shared.tracked ∧ b'.seen = [⟨1, 10⟩, ⟨2, 20⟩] ∧
      (b'.run [.next, .serve 0, .next]).shared.sizeHint = (0, some 0) ∧ b''.waiting = [] ∧
      b''.served.map Answered.answer = [.truth false, .truth true, .number 3, .truth true] ∧
      b''.shared.tracked.toList = [⟨2, 20⟩, ⟨3, 30⟩] := by
  intro b b' b''
  have hfree : b.shared.cursor = none := by decide +kernel
  obtain ⟨-, hguarded⟩ := traversal_guarded (.ofList [⟨1, 10⟩, ⟨2, 20⟩] : Tracked Labelled Nat)
    [.post (.insert ⟨2, 99⟩), .serve 0]
  obtain ⟨⟨htracked, -⟩, -, hend, -, -⟩ := (hguarded hfree).2
    [.next, .post (.remove ⟨1, 0⟩), .serve 0, .post (.insert ⟨3, 30⟩), .next, .post .count] (by simp)
  obtain ⟨hseen, hmore⟩ := hend (by decide +kernel)
  refine ⟨hfree, htracked, hseen.trans (by decide +kernel), (hmore _ (by simp)).hint, ?_, ?_, ?_⟩
  · exact List.eq_nil_of_length_eq_zero (by decide +kernel)
  · decide +kernel
  · decide +kernel

end GridTick
