import GridTick.Proofs.Tick.Accounts

/-!
# GridTick.Proofs.Tick.DeferredWork — deferred work shows at the end of a tick only

A tick reads the deferred work once, when everything else is done.  Two ticks that differ only in that work make the same
calls, come to the same summary and leave the same state and the same lines about regions; what the work was can be told
from the last line of the log alone, and from that only if it failed.

* `Deferred.Fails`, `Deferred.join_eq_error_iff`: which work fails, and how, however deep it is wrapped.
* `untilJoin`: a tick up to the joining; nothing in it is the joining or speaks of the deferred work.
* `JoinedLast`: what the joining adds to a tick that has nothing to join.
* `tick_joinedLast`: any tick that returns.
-/

namespace GridTick

variable {σ C E : Type}

/-! ## Work that fails -/

/-- Deferred work that fails: a thread that raised a fault, or a task with an error of its own, by itself or wrapped. -/
inductive Deferred.Fails : Deferred → TickError → Prop
  | thread (fault : Fault) : Fails (.thread (some fault)) (.deferredTaskFailed fault.message)
  | failing (error : TickError) : Fails (.failing error) error
  | present {work : Deferred} {error : TickError} (h : Fails work error) : Fails (.present work) error

theorem Deferred.join_eq_error_iff {work : Deferred} {error : TickError} :
    work.join = .error error ↔ work.Fails error := by
  induction work with
  | unit => exact ⟨nofun, nofun⟩
  | thread raised =>
    cases raised with
    | none => exact ⟨nofun, nofun⟩
    | some fault =>
      constructor
      · rintro ⟨rfl⟩
        exact .thread fault
      · rintro ⟨⟩
        rfl
  | signal messages => exact ⟨nofun, nofun⟩
  | absent => exact ⟨nofun, nofun⟩
  | present work ih =>
    constructor
    · exact fun h => .present (ih.mp h)
    · rintro (_ | _ | h)
      exact ih.mpr h
  | failing error' =>
    constructor
    · rintro ⟨rfl⟩
      exact .failing error
    · rintro ⟨⟩
      rfl

theorem Deferred.join_eq_ok_iff {work : Deferred} : work.join = .ok () ↔ ∀ error, ¬ work.Fails error := by
  simp only [← Deferred.join_eq_error_iff]
  cases work.join with
  | ok => simp
  | error error => simp

/-- The line that says how deferred work failed. -/
def TickError.deferredLine (error : TickError) : LogLine := ⟨.error, "Deferred task failed", [("error", error.message)]⟩

/-! ## A tick up to the joining -/

section UntilJoin

variable (w : World σ C E) (enable : Bool) (plan : Plan) (turn : Turn C) (s : σ)

/-- All that a tick does before it joins the deferred work. -/
def untilJoin : Except Fault Summary × σ × Array (Event C E) :=
  if enable then tickRegions w plan turn s else tickSequential w turn s

end UntilJoin

section Joining

variable {w : World σ C E} {enable : Bool} {plan : Plan} {turn : Turn C} {s : σ} {summary : Summary} {fault : Fault}

/-- The deferred work is not read before it is joined. -/
theorem untilJoin_deferred (w : World σ C E) (enable : Bool) (plan : Plan) (turn : Turn C) (s : σ) (work : Deferred) :
    untilJoin w enable plan { turn with deferred := work } s = untilJoin w enable plan turn s := rfl

theorem tick_of_returned (h : (untilJoin w enable plan turn s).1 = .ok summary) : tick w enable plan turn s =
    ⟨.ok summary, (untilJoin w enable plan turn s).2.1,
      joinDeferred turn.deferred (untilJoin w enable plan turn s).2.2⟩ := by
  unfold untilJoin at h ⊢
  unfold tick
  generalize (if enable then tickRegions w plan turn s else tickSequential w turn s) = done at h ⊢
  obtain ⟨result, s', events⟩ := done
  obtain rfl : result = .ok summary := h
  rfl

/-- A fault leaves the tick before the joining. -/
theorem tick_of_left (h : (untilJoin w enable plan turn s).1 = .error fault) : tick w enable plan turn s =
    ⟨.error fault, (untilJoin w enable plan turn s).2.1, (untilJoin w enable plan turn s).2.2⟩ := by
  unfold untilJoin at h ⊢
  unfold tick
  generalize (if enable then tickRegions w plan turn s else tickSequential w turn s) = done at h ⊢
  obtain ⟨result, s', events⟩ := done
  obtain rfl : result = .error fault := h
  rfl

theorem summary_tick (w : World σ C E) (enable : Bool) (plan : Plan) (turn : Turn C) (s : σ) :
    (tick w enable plan turn s).summary = (untilJoin w enable plan turn s).1 := by
  cases h : (untilJoin w enable plan turn s).1 with
  | ok summary => rw [tick_of_returned h]
  | error fault => rw [tick_of_left h]

/-- An event of somebody, or a line about a region. -/
def Event.BeforeJoin (ev : Event C E) : Prop :=
  ev.origin?.isSome ∨ ∃ n, ev = .noticed n ∧ n.line.message = "Error during region chunk ticking"

theorem beforeJoin_of_untilJoin (h : (untilJoin w enable plan turn s).1 = .ok summary) :
    ∀ ev ∈ (untilJoin w enable plan turn s).2.2.toList, ev.BeforeJoin := by
  intro ev hev
  cases enable with
  | true =>
    rw [untilJoin, if_pos rfl, tickRegions_eq] at hev
    rcases List.mem_append.mp hev with hev | hev
    · rcases List.mem_append.mp hev with hev | hev
      · obtain ⟨job, -, horigin⟩ := (dispatched_serves w plan turn s).origins ev hev
        exact .inl (by rw [horigin]; rfl)
      · obtain ⟨n, hn, rfl⟩ := List.mem_map.mp hev
        obtain ⟨o, -, ho⟩ := List.mem_filterMap.mp hn
        exact .inr ⟨n, rfl, message_of_notice? ho⟩
    · rw [Event.BeforeJoin, (swept_ends w plan turn s).1.origin ev hev]
      exact .inl rfl
  | false =>
    have hreturned : (tickSequential w turn s).1 = .ok summary := h
    obtain ⟨H₁, H₂, hevents, hends₁, hends₂⟩ := tickSequential_ends hreturned
    have horigin : ev.origin? = some .caller := by
      rcases List.mem_append.mp (hevents ▸ hev) with hev | hev
      · exact hends₁.origin ev hev
      · exact hends₂.origin ev hev
    exact .inl (by rw [horigin]; rfl)

end Joining

/-! ## What the joining adds -/

/-- A tick with deferred work beside the same tick with none: everybody makes the same calls, with the same answers, and
notes the same in the same order; the regions that failed are reported in the same words; the work is joined after all
that, and the log has one more line, the last, if and only if the work fails. -/
structure JoinedLast (work : Deferred) (result plain : TickResult σ C E) : Prop where
  calls : result.events.toList.filter (·.origin?.isSome) = plain.events.toList.filter (·.origin?.isSome)
  failures : failureNotices result.events.toList = failureNotices plain.events.toList
  joined : ∃ before lines, (∀ ev ∈ before, ev.BeforeJoin) ∧ (∀ ev ∈ lines, ∃ n, ev = .noticed n) ∧
    plain.events.toList = before ++ [.joined] ∧ result.events.toList = before ++ .joined :: lines
  quiet : (∀ error, ¬ work.Fails error) → notices result.events = notices plain.events
  failed : ∀ error, work.Fails error →
    (notices result.events).map Notice.line = (notices plain.events).map Notice.line ++ [error.deferredLine]
  fresh : ∀ n ∈ notices plain.events, n.line.message ≠ "Deferred task failed"

theorem notices_joinLines (work : Deferred) : (joinLines work : List (Event C E)).filterMap Event.notice? =
    match work.join with
    | .ok _ => []
    | .error error => [.deferredFailed error] := by
  rw [joinLines]
  cases work.join <;> rfl

theorem joinedLast_of_events {work : Deferred} {result plain : TickResult σ C E} {before : List (Event C E)}
    (hbefore : ∀ ev ∈ before, ev.BeforeJoin) (hplain : plain.events.toList = before ++ [.joined])
    (hresult : result.events.toList = before ++ joinLines work) : JoinedLast work result plain := by
  have hnobody : (joinLines work : List (Event C E)).filter (·.origin?.isSome) = [] :=
    List.filter_eq_nil_iff.mpr fun ev hev => by rw [origin?_of_joinLines hev]; simp
  have hmessage : ∀ n, some n ∈ before.map Event.notice? → n.line.message = "Error during region chunk ticking" := by
    intro n hn
    obtain ⟨ev, hev, hn⟩ := List.mem_map.mp hn
    rcases hbefore ev hev with hsome | ⟨n', rfl, hmessage⟩
    · obtain ⟨o, ho⟩ := Option.isSome_iff_exists.mp hsome
      rw [notice?_of_origin ho] at hn
      cases hn
    · cases hn
      exact hmessage
  have hnotices : notices plain.events = before.filterMap Event.notice? := by
    rw [notices, hplain, List.filterMap_append]
    exact List.append_nil _
  have hnotices' : notices result.events = notices plain.events ++
      match work.join with
      | .ok _ => []
      | .error error => [.deferredFailed error] := by
    rw [hnotices, notices, hresult, List.filterMap_append, notices_joinLines]
  refine ⟨?_, ?_, ?_, fun h => ?_, fun error h => ?_, fun n hn => ?_⟩
  · rw [hresult, hplain, List.filter_append, List.filter_append, hnobody]
    rfl
  · rw [failureNotices, failureNotices, ← notices, ← notices, hnotices', List.filter_append]
    cases work.join with
    | ok => exact List.append_nil _
    | error error => exact List.append_nil _
  · rw [joinLines] at hresult
    cases hjoin : work.join with
    | ok =>
      rw [hjoin] at hresult
      exact ⟨before, [], hbefore, by simp, hplain, hresult⟩
    | error error =>
      rw [hjoin] at hresult
      exact ⟨before, [.noticed (.deferredFailed error)], hbefore, by simp, hplain, hresult⟩
  · rw [hnotices', Deferred.join_eq_ok_iff.mpr h]
    exact List.append_nil _
  · rw [hnotices', Deferred.join_eq_error_iff.mpr h, List.map_append]
    rfl
  · rw [hnotices] at hn
    obtain ⟨ev, hev, hn⟩ := List.mem_filterMap.mp hn
    rw [hmessage n (List.mem_map.mpr ⟨ev, hev, hn⟩)]
    decide

/-- Deferred work changes neither the summary nor the state that a tick leaves, with regions or without, whatever faults
are raised; if the tick returns, the work shows in what the joining adds, and if a fault leaves the tick, nowhere. -/
theorem tick_joinedLast (w : World σ C E) (enable : Bool) (plan : Plan) (turn : Turn C) (s : σ) :
    let result := tick w enable plan turn s
    let plain := tick w enable plan { turn with deferred := .unit } s
    result.summary = plain.summary ∧ result.state = plain.state ∧
      (∀ summary, result.summary = .ok summary → JoinedLast turn.deferred result plain) ∧
      ∀ fault, result.summary = .error fault → result = plain := by
  intro result plain
  have hsame := untilJoin_deferred w enable plan turn s .unit
  have hsummary : result.summary = plain.summary := by rw [summary_tick, summary_tick, hsame]
  cases huntil : (untilJoin w enable plan turn s).1 with
  | error fault =>
    have hresult := tick_of_left huntil
    have hplain := tick_of_left (hsame.symm ▸ huntil)
    rw [hsame] at hplain
    have heq : result = plain := hresult.trans hplain.symm
    refine ⟨hsummary, congrArg TickResult.state heq, fun summary h => ?_, fun _ _ => heq⟩
    rw [summary_tick, huntil] at h
    cases h
  | ok summary =>
    have hresult := tick_of_returned huntil
    have hplain := tick_of_returned (hsame.symm ▸ huntil)
    rw [hsame] at hplain
    refine ⟨hsummary, ?_, fun _ _ => ?_, fun fault h => ?_⟩
    · rw [show result = _ from hresult, show plain = _ from hplain]
    · refine joinedLast_of_events (beforeJoin_of_untilJoin huntil) ?_ ?_
      · rw [show plain = _ from hplain]
        exact joinDeferred_eq .unit _
      · rw [show result = _ from hresult]
        exact joinDeferred_eq turn.deferred _
    · rw [summary_tick, huntil] at h
      cases h

/-- One agent in the middle, and beside the tick a thread that fails without a word, two options deep. -/
def Turn.beside (loaded : List Key) : Turn Key :=
  { Turn.alone loaded with deferred := .present (.present (.thread (some .wordless))) }

/-- The region stumbles over its third chunk; after its line the log has that of the thread. -/
theorem tick_joinedLast_stumbling :
    let w := World.stumbling 11
    let turn := Turn.beside [Cell.key ⟨0, 0⟩, Cell.key ⟨-1, 0⟩, Cell.key ⟨40, 0⟩]
    let result := tick w true .inOrder turn 0
    let plain := tick w true .inOrder { turn with deferred := .unit } 0
    result.summary = .ok ⟨1, 1, 2, 2, 0, 2, 1⟩ ∧ plain.summary = .ok ⟨1, 1, 2, 2, 0, 2, 1⟩ ∧
      JoinedLast turn.deferred result plain ∧
      (notices result.events).map Notice.line =
        [⟨.error, "Error during region chunk ticking",
            [("region", "0"), ("error", "region 0 task panicked: stumbled"), ("ticked", "2")]⟩,
          ⟨.error, "Deferred task failed", [("error", "deferred task panicked: unknown panic payload")]⟩] := by
  intro w turn result plain
  obtain ⟨hsummary, -, hjoined, -⟩ := tick_joinedLast w true .inOrder turn 0
  have hdispatch := dispatch_alone 11
  have hok : result.summary = .ok ⟨1, 1, 2, 2, 0, 2, 1⟩ := by
    simp only [result, w, turn, tick, tickRegions, Turn.beside, Turn.alone, World.stumbling, if_true] at hdispatch ⊢
    simp only [buildBatch_alone, hdispatch]
    decide +kernel
  have hlast := hjoined _ hok
  have hfails : turn.deferred.Fails (.deferredTaskFailed "unknown panic payload") := .present (.present (.thread .wordless))
  have hplain : (notices plain.events).map Notice.line = [⟨.error, "Error during region chunk ticking",
      [("region", "0"), ("error", "region 0 task panicked: stumbled"), ("ticked", "2")]⟩] := by
    simp only [plain, w, turn, tick, tickRegions, Turn.beside, Turn.alone, World.stumbling, if_true] at hdispatch ⊢
    simp only [buildBatch_alone, hdispatch]
    decide +kernel
  refine ⟨hok, hsummary ▸ hok, hlast, ?_⟩
  rw [hlast.failed _ hfails, hplain]
  rfl

end GridTick
