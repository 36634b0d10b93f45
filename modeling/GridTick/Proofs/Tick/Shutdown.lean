import GridTick.Tick.Ticker
import GridTick.Proofs.Settings.Acceptance

/-!
# GridTick.Proofs.Tick.Shutdown — how the engine ends

Every configuration can be read from a text, so every timeout of 64 bits reaches the clock: the check of the settings
replaces the worker count only.  When the clock can show the deadline, a shutdown ends well or says how many workers
are left.  When it cannot, the shutdown is a fault, and some timeouts are such that no clock can.

* `Executor.Gone`, `await_eq`: all workers are known to have left, and what the wait comes to.
* `Clock.Reaches`, `shutdown_of_reaches`, `shutdown_of_not_reaches`: deadlines that a clock shows, and others.
* `shutdown_ends`: how the shutdown of a started engine ends.
* `shutdown_ends_standard`, `shutdown_overflows`: each of the three ends.
-/

namespace GridTick

/-! ## The wait -/

namespace Executor

/-- By the deadline as many workers have reported as there are, or it is known that none is left to report. -/
def Gone (threads : Nat) (receipts : List Receipt) : Prop := threads ≤ receipts.length ∨ .disconnected ∈ receipts

instance (threads : Nat) (receipts : List Receipt) : Decidable (Gone threads receipts) :=
  inferInstanceAs (Decidable (_ ∨ _))

theorem gone_cons_exited {remaining worker : Nat} {rest : List Receipt} :
    Gone (remaining + 1) (.exited worker :: rest) ↔ Gone remaining rest := by
  unfold Gone
  rw [List.length_cons, Nat.succ_le_succ_iff, List.mem_cons]
  refine or_congr Iff.rfl ⟨fun h => ?_, .inr⟩
  exact h.resolve_left fun heq => by cases heq

/-- The wait ends well just if all workers are gone; otherwise each worker that has not reported is counted. -/
theorem await_eq (timeout : Duration) (threads : Nat) (receipts : List Receipt) :
    await timeout threads receipts =
      if Gone threads receipts then .ok () else .error (.shutdownTimeout timeout (threads - receipts.length)) := by
  induction receipts generalizing threads with
  | nil =>
    cases threads with
    | zero => rw [await, if_pos (.inl (Nat.le_refl 0))]
    | succ remaining =>
      have hleft : ¬ Gone (remaining + 1) [] := by
        rintro (hle | hmem)
        · exact absurd hle (Nat.not_succ_le_zero remaining)
        · exact absurd hmem List.not_mem_nil
      rw [await, if_neg hleft, List.length_nil, Nat.sub_zero]
  | cons receipt rest ih =>
    cases threads with
    | zero => rw [await, if_pos (.inl (Nat.zero_le _))]
    | succ remaining =>
      cases receipt with
      | disconnected => rw [await, if_pos (.inr List.mem_cons_self)]
      | exited worker =>
        rw [await, ih, List.length_cons, Nat.add_sub_add_right]
        simp only [gone_cons_exited]

end Executor

/-! ## The deadline -/

/-- A clock that can show the instant a span after its reading. -/
def Clock.Reaches (clock : Clock) (d : Duration) : Prop :=
  clock.now + d.nanoseconds < clock.limitSeconds * Duration.perSecond

theorem deadline_of_reaches {clock : Clock} {d : Duration} (h : clock.Reaches d) :
    clock.deadline d = .ok (clock.now + d.nanoseconds) := if_pos h

theorem deadline_of_not_reaches {clock : Clock} {d : Duration} (h : ¬ clock.Reaches d) :
    clock.deadline d = .error (.text "overflow when adding duration to instant") := if_neg h

theorem shutdown_of_reaches {clock : Clock} {d : Duration} (h : clock.Reaches d) (e : Executor)
    (receipts : List Receipt) : e.shutdown clock d receipts =
      .ok (if Executor.Gone e.threads receipts then .ok () else .error (.shutdownTimeout d (e.threads - receipts.length))) := by
  rw [Executor.shutdown, deadline_of_reaches h, Executor.await_eq]
  rfl

theorem shutdown_of_not_reaches {clock : Clock} {d : Duration} (h : ¬ clock.Reaches d) (e : Executor)
    (receipts : List Receipt) :
    e.shutdown clock d receipts = .error (.text "overflow when adding duration to instant") := by
  rw [Executor.shutdown, deadline_of_not_reaches h]
  rfl

/-- A timeout that is not shorter than the whole range of a clock is out of its reach. -/
theorem not_reaches_of_limit_le {clock : Clock} {seconds : Nat} (h : clock.limitSeconds ≤ seconds) :
    ¬ clock.Reaches (Duration.ofSeconds seconds) := by
  have hmul := Nat.mul_le_mul_right Duration.perSecond h
  unfold Clock.Reaches
  show ¬ clock.now + (seconds * Duration.perSecond + 0) < clock.limitSeconds * Duration.perSecond
  omega

/-! ## The engine -/

theorem isValid_iff (c : Config) : c.isValid = true ↔ 1 ≤ c.threads.toNat ∧ c.threads.toNat ≤ 10 := by
  rw [Config.isValid, Bool.and_eq_true, decide_eq_true_iff, decide_eq_true_iff]
  rfl

/-- A checked configuration has a worker count in range, and the timeout that was given. -/
theorem validate_cases (c : Config) :
    (1 ≤ c.validate.1.threads.toNat ∧ c.validate.1.threads.toNat ≤ 10) ∧
      c.validate.1.timeoutSeconds = c.timeoutSeconds := by
  unfold Config.validate
  by_cases hvalid : c.isValid = true
  · rw [if_pos hvalid]
    exact ⟨(isValid_iff c).mp hvalid, rfl⟩
  · rw [if_neg hvalid]
    have hdefault : 1 ≤ defaultThreads.toNat ∧ defaultThreads.toNat ≤ 10 := by decide
    exact ⟨hdefault, rfl⟩

/-- A configuration that has been checked passes the check as it is. -/
theorem validate_validate (c : Config) : c.validate.1.validate = (c.validate.1, []) := by
  rw [Config.validate, if_pos ((isValid_iff _).mpr (validate_cases c).1)]

/-- A started engine has the checked configuration and a pool of its size. -/
theorem start_eq (c : Config) : (Ticker.start c).1 = ⟨c.validate.1, Executor.ofConfig c.validate.1⟩ := by
  unfold Ticker.start Ticker.ofExecutor
  dsimp only
  rw [validate_validate]
  dsimp only
  split <;> rfl

theorem start_threads (c : Config) : (Ticker.start c).1.executor.threads = c.validate.1.threads.toNat := by
  have hpositive := (validate_cases c).1.1
  rw [start_eq]
  exact max_eq_left hpositive

theorem start_timeout (c : Config) : (Ticker.start c).1.config.timeout = Duration.ofSeconds c.timeoutSeconds.toNat := by
  rw [start_eq, Config.timeout, (validate_cases c).2]

/-- How the shutdown of a started engine ends. -/
structure ShutdownEnds (c : Config) (clock : Clock) (receipts : List Receipt) : Prop where
  /-- The configuration can be given. -/
  given : ∃ text, Config.parse text = .ok c
  /-- The pool has at least one worker and at most ten. -/
  pool : 1 ≤ (Ticker.start c).1.executor.threads ∧ (Ticker.start c).1.executor.threads ≤ 10
  /-- With a deadline that the clock shows, and all workers gone by then, it ends well. -/
  well : clock.Reaches (Duration.ofSeconds c.timeoutSeconds.toNat) →
    Executor.Gone (Ticker.start c).1.executor.threads receipts →
    (Ticker.start c).1.shutdown clock receipts = .ok (.ok ())
  /-- With workers left at such a deadline it says how many, and how long it has waited. -/
  late : clock.Reaches (Duration.ofSeconds c.timeoutSeconds.toNat) →
    ¬ Executor.Gone (Ticker.start c).1.executor.threads receipts →
    ∃ remaining, 1 ≤ remaining ∧ remaining ≤ (Ticker.start c).1.executor.threads ∧
      remaining + receipts.length = (Ticker.start c).1.executor.threads ∧
      (Ticker.start c).1.shutdown clock receipts =
        .ok (.error (.shutdownTimeout (Duration.ofSeconds c.timeoutSeconds.toNat) remaining))
  /-- With a deadline that the clock cannot show it is a fault, whoever has left. -/
  fault : ¬ clock.Reaches (Duration.ofSeconds c.timeoutSeconds.toNat) →
    (Ticker.start c).1.shutdown clock receipts = .error (.text "overflow when adding duration to instant")
  /-- Timeouts from the range of the clock on have no deadline that it shows. -/
  beyond : clock.limitSeconds ≤ c.timeoutSeconds.toNat →
    ¬ clock.Reaches (Duration.ofSeconds c.timeoutSeconds.toNat)

theorem shutdown_ends (c : Config) (clock : Clock) (receipts : List Receipt) : ShutdownEnds c clock receipts where
  given := c.exists_text
  pool := by
    rw [start_threads]
    exact (validate_cases c).1
  well := by
    intro hreaches hgone
    rw [Ticker.shutdown, start_timeout, shutdown_of_reaches hreaches, if_pos hgone]
  late := by
    intro hreaches hleft
    have hfewer : receipts.length < (Ticker.start c).1.executor.threads := Nat.lt_of_not_le fun hle => hleft (.inl hle)
    refine ⟨(Ticker.start c).1.executor.threads - receipts.length, by omega, by omega, by omega, ?_⟩
    rw [Ticker.shutdown, start_timeout, shutdown_of_reaches hreaches, if_neg hleft]
  fault := by
    intro hbeyond
    rw [Ticker.shutdown, start_timeout, shutdown_of_not_reaches hbeyond]
  beyond := not_reaches_of_limit_le

/-- With the settings as they are by default all four workers may leave in time, or one of them may be left. -/
theorem shutdown_ends_standard :
    let clock : Clock := ⟨0, twoTo 63⟩
    let ticker := (Ticker.start .standard).1
    ticker.shutdown clock (Executor.exits 4) = .ok (.ok ()) ∧
      ticker.shutdown clock (Executor.exits 3) =
        .ok (.error (.shutdownTimeout (Duration.ofSeconds Config.standard.timeoutSeconds.toNat) 1)) := by
  intro clock ticker
  have hreaches : clock.Reaches (Duration.ofSeconds Config.standard.timeoutSeconds.toNat) := by
    unfold Clock.Reaches
    decide
  constructor
  · exact (shutdown_ends .standard clock (Executor.exits 4)).well hreaches (by decide)
  · obtain ⟨remaining, -, -, hthreads, hlate⟩ :=
      (shutdown_ends .standard clock (Executor.exits 3)).late hreaches (by decide)
    obtain rfl : remaining = 1 := Nat.add_right_cancel (hthreads.trans (by decide : ticker.executor.threads = 1 + 3))
    exact hlate

/-- The longest timeout is read, and with it the shutdown is a fault, although all workers have left. -/
theorem shutdown_overflows :
    Config.parse "\x7b\"shutdown-timeout-secs\":18446744073709551615\x7d" = .ok ⟨true, 4, 18446744073709551615⟩ ∧
    (Ticker.start ⟨true, 4, 18446744073709551615⟩).1.shutdown ⟨0, twoTo 63⟩ (Executor.exits 4) =
      .error (.text "overflow when adding duration to instant") := by
  have hname : Spelled "shutdown-timeout-secs".toList "shutdown-timeout-secs".toList := spelled_self rfl
  have hnumber : (Scalar.integer 18446744073709551615).Written "18446744073709551615".toList :=
    .natural (by decide) (by decide)
  have hdocument : Document [⟨"shutdown-timeout-secs", .integer 18446744073709551615⟩]
      "\x7b\"shutdown-timeout-secs\":18446744073709551615\x7d".toList :=
    .filled blanks_nil blanks_nil (.mk (.mk hname) blanks_nil blanks_nil hnumber) .nil blanks_nil blanks_nil
  constructor
  · refine (parse_eq_ok_iff hdocument _).mpr ⟨?_, ?_, ?_⟩
    · exact acceptable_append_singleton.mpr ⟨acceptable_nil, List.not_mem_nil, .timeout, rfl, _, rfl, by decide⟩
    · intro m hm field hfield
      cases List.mem_singleton.mp hm
      have htimeout : field = .timeout := Field.name_injective hfield
      rw [htimeout]
      rfl
    · intro field habsent
      cases field with
      | enable => rfl
      | threads => rfl
      | timeout => exact absurd List.mem_cons_self habsent
  · decide

end GridTick
