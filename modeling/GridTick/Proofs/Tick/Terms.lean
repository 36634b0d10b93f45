import GridTick.Proofs.Tick.DeferredWork

/-!
# GridTick.Proofs.Tick.Terms — tasks that keep to terms

Between two calls of a task the others may change the state.  They get along if everybody keeps to terms: what holds of
state and history at all times, and what each part of a tick may do to the state.  A part may then rely on whatever the
others may not undo.  A part is told by the place of its region, the calling thread by none.

* `Terms`, `Terms.Lasts`: the terms, and what a part may rely on.
* `Program.Keeps`: a program that keeps to terms and returns, with one rule for each way to build a program.
* `Program.Keeps.run`, `Task.step_keeps`: such a program on its own, and one step of it among others.
* `Pool.Keeps`: tasks side by side that keep to terms; `Pool.Keeps.turn` keeps it.
* `ChunkTerms`, `Program.regionTask_keeps`, `Program.sweep_keeps`: the chunks' part of the work.
* `tick_keeps`: a tick whose parts keep to terms returns.
-/

namespace GridTick

variable {σ C E α β : Type}

/-! ## Terms -/

/-- What holds of state and history at all times, and what each part may do to the state.  Notes and lines of the log
make no difference to what holds. -/
structure Terms (σ C E : Type) where
  holds : σ → List (Event C E) → Prop
  may : Option Nat → σ → σ → Prop
  idle : ∀ s H ev, (∀ o c a, ev ≠ .called o c a) → holds s H → holds s (H ++ [ev])

theorem marked_ne_called {origin : Origin} {m : Mark E} :
    ∀ (o : Origin) (c : Call C E) (a : Except Fault c.Answer), (.marked origin m : Event C E) ≠ .called o c a := by
  intro o c a heq
  cases heq

/-- A part may rely on this: nothing that another may do undoes it. -/
def Terms.Lasts (T : Terms σ C E) (p : Option Nat) (P : σ → Prop) : Prop :=
  ∀ q s s' H, q ≠ p → T.holds s H → T.may q s s' → P s → P s'

theorem Terms.Lasts.const (T : Terms σ C E) (p : Option Nat) (φ : Prop) : T.Lasts p fun _ => φ :=
  fun _ _ _ _ _ _ _ h => h

theorem Terms.Lasts.and {T : Terms σ C E} {p : Option Nat} {P Q : σ → Prop} (hP : T.Lasts p P) (hQ : T.Lasts p Q) :
    T.Lasts p fun s => P s ∧ Q s :=
  fun q s s' H hq hs hmay h => ⟨hP q s s' H hq hs hmay h.1, hQ q s s' H hq hs hmay h.2⟩

/-- On behalf of `o` the call is answered with a value, within the terms; `Q` is then known. -/
def World.Serves (w : World σ C E) (T : Terms σ C E) (o : Origin) (c : Call C E) (P : σ → Prop)
    (Q : c.Answer → σ → Prop) : Prop :=
  ∀ s H, T.holds s H → P s → ∃ a s', w.answer c s = (.ok a, s') ∧ T.holds s' (H ++ [.called o c (.ok a)]) ∧
    T.may o.place? s s' ∧ Q a s'

/-! ## Programs -/

namespace Program

/-- Where `P` is known, a program keeps to the terms on behalf of `o`, and `Q` is known when it returns.  Between two of
its calls it relies on what lasts. -/
def Keeps (w : World σ C E) (T : Terms σ C E) (o : Origin) : Program C E α → (σ → Prop) → (α → σ → Prop) → Prop
  | .done a, P, Q => ∀ s H, T.holds s H → P s → Q a s
  | .mark _ rest, P, Q => rest.Keeps w T o P Q
  | .ask c next, P, Q => ∃ R : c.Answer → σ → Prop, (∀ a, T.Lasts o.place? (R a)) ∧ w.Serves T o c P R ∧
      ∀ a, (next a).Keeps w T o (R a) Q

variable {w : World σ C E} {T : Terms σ C E} {o : Origin} {p : Program C E α} {P P' : σ → Prop} {Q Q' : α → σ → Prop}

theorem Keeps.pre (h : p.Keeps w T o P Q) (himp : ∀ s H, T.holds s H → P' s → P s) : p.Keeps w T o P' Q := by
  induction p generalizing P P' with
  | done a => exact fun s H hs hP => h s H hs (himp s H hs hP)
  | mark m rest ih => exact ih h himp
  | ask c next ih =>
    obtain ⟨R, hlasts, hserves, hnext⟩ := h
    exact ⟨R, hlasts, fun s H hs hP => hserves s H hs (himp s H hs hP), hnext⟩

theorem Keeps.post (h : p.Keeps w T o P Q) (himp : ∀ a s H, T.holds s H → Q a s → Q' a s) : p.Keeps w T o P Q' := by
  induction p generalizing P with
  | done a => exact fun s H hs hP => himp a s H hs (h s H hs hP)
  | mark m rest ih => exact ih h
  | ask c next ih =>
    obtain ⟨R, hlasts, hserves, hnext⟩ := h
    exact ⟨R, hlasts, hserves, fun a => ih a (hnext a)⟩

theorem Keeps.bind {f : α → Program C E β} {R : β → σ → Prop} (h : p.Keeps w T o P Q)
    (hf : ∀ a, (f a).Keeps w T o (Q a) R) : (p.bind f).Keeps w T o P R := by
  induction p generalizing P with
  | done a => exact (hf a).pre h
  | mark m rest ih => exact ih h
  | ask c next ih =>
    obtain ⟨S, hlasts, hserves, hnext⟩ := h
    exact ⟨S, hlasts, hserves, fun a => ih a (hnext a)⟩

theorem Keeps.done {a : α} (h : ∀ s H, T.holds s H → P s → Q a s) : (Program.done a : Program C E α).Keeps w T o P Q :=
  h

theorem Keeps.call {c : Call C E} {R : c.Answer → σ → Prop} (hlasts : ∀ a, T.Lasts o.place? (R a))
    (hserves : w.Serves T o c P R) : (Program.call c).Keeps w T o P R :=
  ⟨R, hlasts, hserves, fun _ _ _ _ h => h⟩

theorem Keeps.note (m : Mark E) : (Program.note m : Program C E Unit).Keeps w T o P fun _ => P := fun _ _ _ h => h

/-- Where nothing can be, everything keeps to the terms. -/
theorem Keeps.absurd (h : ∀ s, ¬ P s) : p.Keeps w T o P Q := by
  induction p generalizing P with
  | done a => exact fun s _ _ hP => (h s hP).elim
  | mark m rest ih => exact ih h
  | ask c next ih =>
    exact ⟨fun _ _ => False, fun _ => .const T _ False, fun s _ _ hP => (h s hP).elim, fun a => ih a fun _ => id⟩

/-- A fact that does not depend on the state may be used in the proof. -/
theorem Keeps.assume {φ : Prop} (h : φ → p.Keeps w T o P Q) : p.Keeps w T o (fun s => φ ∧ P s) Q := by
  by_cases hφ : φ
  · exact (h hφ).pre fun _ _ _ hP => hP.2
  · exact .absurd fun _ hP => hφ hP.1

/-- All calls of a kind keep to the terms and to what is known. -/
theorem AsksOnly.keeps {A : Call C E → Prop} (h : p.AsksOnly A) (hlasts : T.Lasts o.place? P)
    (hserves : ∀ c, A c → w.Serves T o c P fun _ => P) : p.Keeps w T o P fun _ => P := by
  induction p with
  | done a => exact fun _ _ _ hP => hP
  | mark m rest => exact h.elim
  | ask c next ih => exact ⟨fun _ => P, fun _ => hlasts, hserves c h.1, fun a => ih a (h.2 a)⟩

/-- A contract, call by call: `there` is known of an entity that takes part, `checked` once it had the chance to despawn,
`rides v` once it has named a vehicle, `loose` if that one does not carry it, `alone` when it is about to be ticked, and
`Q` however the contract ends. -/
theorem contract_keeps {e : E} (there checked loose alone Q : σ → Prop) (rides : E → σ → Prop)
    (hgone : (call (.isRemoved e)).Keeps w T o P fun gone s => if gone = true then Q s else there s)
    (hfrozen : (call (.isFrozen e)).Keeps w T o there fun frozen s => if frozen = true then Q s else there s)
    (hcheck : (call (.checkDespawn e)).Keeps w T o there fun _ => checked)
    (hvehicle : (call (.vehicle e)).Keeps w T o checked fun v s => v.elim (alone s) fun v => rides v s)
    (hcarries : ∀ v, (stillCarries v e).Keeps w T o (rides v) fun carried s => if carried = true then Q s else loose s)
    (hoff : (call (.stopRiding e)).Keeps w T o loose fun _ => alone)
    (htick : (call (.tickEntity e)).Keeps w T o alone fun _ => Q) :
    (contract e).Keeps w T o P fun _ => Q := by
  have hticked : ∀ dismounted : Bool, ((call (.tickEntity e)).bind fun _ =>
      (pure (.ticked dismounted) : Program C E EntityTick)).Keeps w T o alone fun _ => Q :=
    fun _ => htick.bind fun _ => .done fun _ _ _ hQ => hQ
  have hpart : (takePart e).Keeps w T o there fun _ => Q := by
    refine hcheck.bind fun _ => hvehicle.bind fun vehicle => ?_
    cases vehicle with
    | none => exact hticked false
    | some v =>
      refine (hcarries v).bind fun carried => ?_
      cases carried with
      | true => exact .done fun _ _ _ hQ => by simpa using hQ
      | false => exact (hoff.bind fun _ => hticked true).pre fun _ _ _ hloose => by simpa using hloose
  refine hgone.bind fun gone => ?_
  cases gone with
  | true => exact .done fun _ _ _ hQ => by simpa using hQ
  | false =>
    refine (hfrozen.bind fun frozen => ?_).pre fun _ _ _ hthere => by simpa using hthere
    cases frozen with
    | true => exact .done fun _ _ _ hQ => by simpa using hQ
    | false => exact hpart.pre fun _ _ _ hthere => by simpa using hthere

/-- Offers one after another: `K` tells what is known while these entities have not been offered their ticks. -/
theorem offerAll_keeps {entities : List E} {K : List E → σ → Prop}
    (h : ∀ e rest, e :: rest <:+ entities → (contract e).Keeps w T o (K (e :: rest)) fun _ => K rest) :
    (offerAll entities).Keeps w T o (K entities) fun _ => K [] := by
  induction entities with
  | nil => exact .done fun _ _ _ hK => hK
  | cons e rest ih =>
    have hoffer : (offer e).Keeps w T o (K (e :: rest)) fun _ => K rest :=
      (Keeps.note _).bind fun _ => (h e rest (List.suffix_refl _)).bind fun _ =>
        (Keeps.note _).bind fun _ => .done fun _ _ _ hK => hK
    exact hoffer.bind fun _ => ih fun e' rest' hsuffix => h e' rest' (hsuffix.trans (List.suffix_cons e rest))

/-! ## Runs and steps -/

/-- A program that keeps to the terms returns.  What others rely on is left alone. -/
theorem Keeps.run (h : p.Keeps w T o P Q) (keys : KeySet) {s : σ} {events : Array (Event C E)}
    (hs : T.holds s events.toList) (hP : P s) :
    ∃ a trail, p.run w o ⟨s, keys, events⟩ = (.ok a, trail) ∧ T.holds trail.state trail.events.toList ∧
      Q a trail.state ∧ ∀ q R, q ≠ o.place? → T.Lasts q R → R s → R trail.state := by
  induction p generalizing P s keys events with
  | done a => exact ⟨a, _, rfl, hs, h s _ hs hP, fun _ _ _ _ hR => hR⟩
  | mark m rest ih =>
    have hmarked : T.holds s (events.push (.marked o m)).toList := by
      rw [Array.toList_push]
      exact T.idle s _ _ marked_ne_called hs
    exact ih h (m.record keys) hmarked hP
  | ask c next ih =>
    obtain ⟨S, -, hserves, hnext⟩ := h
    obtain ⟨a, s', hans, hs', hmay, hS⟩ := hserves s _ hs hP
    rw [← Array.toList_push] at hs'
    obtain ⟨b, trail, hrun, hholds, hQ, hothers⟩ := ih a (hnext a) keys hs' hS
    refine ⟨b, trail, ?_, hholds, hQ, fun q R hq hlasts hR => hothers q R hq hlasts ?_⟩
    · rw [Program.run, hans]
      exact hrun
    · exact hlasts o.place? s s' _ hq.symm hs hmay hR

end Program

/-- What is left of a task keeps to the terms, and has not ended in a fault. -/
def Stage.Keeps (w : World σ C E) (T : Terms σ C E) (o : Origin) (P Q : σ → Prop) : Stage C E → Prop
  | .running p => p.Keeps w T o P fun _ => Q
  | .ended fault => fault = none ∧ ∀ s H, T.holds s H → P s → Q s

section Tasks

variable {w : World σ C E} {T : Terms σ C E} {P Q : σ → Prop} {s : σ}

/-- A step of a task that keeps to the terms: it stays within them, and what is left of the task keeps to them from what
is known then. -/
theorem Task.step_keeps {t : Task C E} {events : Array (Event C E)} (h : t.stage.Keeps w T t.origin P Q)
    (hlasts : T.Lasts (some t.place) P) (hs : T.holds s events.toList) (hP : P s) :
    T.holds (t.step w s events).2.1 (t.step w s events).2.2.toList ∧
      ((t.step w s events).2.1 = s ∨ T.may (some t.place) s (t.step w s events).2.1) ∧
      ∃ R, T.Lasts (some t.place) R ∧ R (t.step w s events).2.1 ∧ (t.step w s events).1.stage.Keeps w T t.origin R Q := by
  rcases t with ⟨place, region, entities, recorded, (a | ⟨c, next⟩ | ⟨m, rest⟩) | fault⟩
  · exact ⟨hs, .inl rfl, P, hlasts, hP, rfl, h⟩
  · obtain ⟨R, hR, hserves, hnext⟩ := h
    obtain ⟨a, s', hans, hs', hmay, hknown⟩ := hserves s _ hs hP
    rw [← Array.toList_push] at hs'
    have hstep : Task.step w ⟨place, region, entities, recorded, .running (.ask c next)⟩ s events =
        (⟨place, region, entities, recorded, .running (next a)⟩, s',
          events.push (.called (.task place region) c (.ok a))) := by
      simp [step, Program.step, hans, origin]
    rw [hstep]
    exact ⟨hs', .inr hmay, R a, hR a, hknown, hnext a⟩
  · have hmarked : T.holds s (events.push (.marked (.task place region) m)).toList := by
      rw [Array.toList_push]
      exact T.idle s _ _ marked_ne_called hs
    exact ⟨hmarked, .inl rfl, P, hlasts, hP, h⟩
  · exact ⟨hs, .inl rfl, P, hlasts, hP, h⟩

end Tasks

/-! ## Tasks side by side -/

/-- Tasks side by side that keep to the terms: each relies on something that lasts, and will leave `post` of its place;
those that have reported had no fault, and `post` of their places is still known.  So is what the calling thread relies
on, which waits. -/
structure Pool.Keeps (w : World σ C E) (T : Terms σ C E) (post : Nat → σ → Prop) (waits : σ → Prop)
    (pool : Pool σ C E) : Prop where
  places : (pool.tasks.map Task.place ++ pool.reports.map Outcome.place).Nodup
  holds : T.holds pool.state pool.events.toList
  tasks : ∀ t ∈ pool.tasks, ∃ P, T.Lasts (some t.place) P ∧ P pool.state ∧
    t.stage.Keeps w T t.origin P (post t.place)
  reports : ∀ r ∈ pool.reports, r.fault = none ∧ post r.place pool.state
  caller : waits pool.state

section Pools

variable {w : World σ C E} {T : Terms σ C E} {post : Nat → σ → Prop} {waits : σ → Prop}
  {l₁ l₂ : List (Task C E)} {t : Task C E} {reports : List Outcome} {s : σ} {events : Array (Event C E)}

theorem Pool.Keeps.report {fault : Option Fault} (h : Pool.Keeps w T post waits ⟨l₁ ++ t :: l₂, reports, s, events⟩)
    (ht : t.stage = .ended fault) :
    Pool.Keeps w T post waits ⟨l₁ ++ l₂, reports ++ [t.outcome fault], s, events⟩ := by
  obtain ⟨hplaces, hholds, htasks, hreports, hcaller⟩ := h
  refine ⟨(places_report l₁ l₂ t reports fault).nodup_iff.mpr hplaces, hholds,
    fun u hu => htasks u (mem_middle.mpr (.inr hu)), ?_, hcaller⟩
  intro r hr
  rcases List.mem_append.mp hr with hr | hr
  · exact hreports r hr
  · obtain rfl := List.mem_singleton.mp hr
    obtain ⟨P, -, hP, hstage⟩ := htasks t (by simp)
    rw [ht] at hstage
    exact ⟨hstage.1, hstage.2 s _ hholds hP⟩

theorem Pool.Keeps.advance {p : Program C E Unit}
    (h : Pool.Keeps w T post waits ⟨l₁ ++ t :: l₂, reports, s, events⟩) (ht : t.stage = .running p)
    (hpost : ∀ i, T.Lasts (some i) (post i)) (hwaits : T.Lasts none waits) :
    Pool.Keeps w T post waits ⟨l₁ ++ (t.step w s events).1 :: l₂, reports, (t.step w s events).2.1,
      (t.step w s events).2.2⟩ := by
  obtain ⟨hplaces, hholds, htasks, hreports, hcaller⟩ := h
  obtain ⟨P, hlasts, hP, hstage⟩ := htasks t (by simp)
  obtain ⟨hholds', hmay, R, hR, hknown, hstage'⟩ := Task.step_keeps hstage hlasts hholds hP
  obtain ⟨_, -, hadv⟩ := t.step_advances w ht s events
  have horigin : (t.step w s events).1.origin = t.origin := by rw [Task.origin, Task.origin, hadv.place, hadv.region]
  -- what another part relies on is left alone
  have hothers : ∀ q K, q ≠ some t.place → T.Lasts q K → K s → K (t.step w s events).2.1 := by
    intro q K hq hK hknown
    rcases hmay with heq | hmay
    · rwa [heq]
    · exact hK _ _ _ _ hq.symm hholds hmay hknown
  obtain ⟨hne, hne'⟩ := place_ne hplaces
  refine ⟨?_, hholds', fun u hu => ?_, fun r hr => ?_, ?_⟩
  · simpa [hadv.place] using hplaces
  · rcases mem_middle.mp hu with rfl | hu
    · rw [hadv.place, horigin]
      exact ⟨R, hR, hknown, hstage'⟩
    · obtain ⟨K, hK, hknownK, hstageK⟩ := htasks u (mem_middle.mpr (.inr hu))
      exact ⟨K, hK, hothers _ K (fun heq => hne u hu (Option.some.inj heq)) hK hknownK, hstageK⟩
  · obtain ⟨hfault, hknownK⟩ := hreports r hr
    exact ⟨hfault, hothers _ _ (fun heq => hne' r hr (Option.some.inj heq)) (hpost r.place) hknownK⟩
  · exact hothers none waits (Option.some_ne_none t.place).symm hwaits hcaller

theorem Pool.Keeps.turn {pool : Pool σ C E} (h : pool.Keeps w T post waits) (hpost : ∀ i, T.Lasts (some i) (post i))
    (hwaits : T.Lasts none waits) (i : Nat) : (pool.turn w i).Keeps w T post waits := by
  obtain ⟨tasks, reports, s, events⟩ := pool
  rcases turn_cases w ⟨tasks, reports, s, events⟩ i with
    heq | ⟨l₁, t, l₂, fault, rfl, ht, heq⟩ | ⟨l₁, t, l₂, q, rfl, ht, heq⟩
  · rw [heq]
    exact h
  · rw [heq]
    exact h.report ht
  · rw [heq]
    exact h.advance ht hpost hwaits

/-- If the task of every region keeps to the terms, no task has a fault, and in the end what each leaves is known. -/
theorem dispatch_keeps {plan : Plan} {speed : UInt32} {regions : List (Region E)} (pre : Nat → σ → Prop)
    (hpre : ∀ i, T.Lasts (some i) (pre i)) (hpost : ∀ i, T.Lasts (some i) (post i)) (hwaits : T.Lasts none waits)
    (htasks : ∀ job ∈ jobs regions,
      (jobProgram plan speed job).Keeps w T (jobOrigin job) (pre job.2) fun _ => post job.2)
    (hs : T.holds s []) (hknown : ∀ job ∈ jobs regions, pre job.2 s) (hcaller : waits s) :
    T.holds (dispatch w plan speed regions s #[]).2.1 (dispatch w plan speed regions s #[]).2.2.toList ∧
      waits (dispatch w plan speed regions s #[]).2.1 ∧
      ∀ job ∈ jobs regions, post job.2 (dispatch w plan speed regions s #[]).2.1 := by
  have hstart : (Pool.start plan speed regions s : Pool σ C E).Keeps w T post waits := by
    refine ⟨?_, hs, fun t ht => ?_, by simp [Pool.start], hcaller⟩
    · rw [Pool.start_places]
      simpa [Pool.start] using jobs_nodup regions
    · obtain ⟨job, hjob, rfl⟩ := List.mem_map.mp ht
      exact ⟨pre job.2, hpre job.2, hknown job hjob, htasks job hjob⟩
  obtain ⟨reports, hsort, hend⟩ := dispatch_induction w plan speed regions s hstart
    fun pool h i => h.turn hpost hwaits i
  refine ⟨hend.holds, hend.caller, fun job hjob => ?_⟩
  obtain ⟨o, ho, hserves⟩ := exists_report (by simpa using (dispatch_serves w plan speed regions s).places)
    (dispatch_serves w plan speed regions s).reports hjob
  have hpost := (hend.reports o (hsort.subset ho)).2
  rwa [hserves.place] at hpost

end Pools

/-! ## Chunks -/

/-- Calls on chunks keep to the terms and to `P`; look-ups find chunks of a kind, and chunks of that kind may be
ticked. -/
structure ChunkTerms (w : World σ C E) (T : Terms σ C E) (speed : UInt32) (o : Origin) (kind : C → Prop) (P : σ → Prop) :
    Prop where
  lasts : T.Lasts o.place? P
  lookUp : ∀ k, w.Serves T o (.lookup k) P fun c s => (∀ c' ∈ c, kind c') ∧ P s
  tick : ∀ c, kind c → w.Serves T o (.tickChunk c speed) P fun _ s => P s

namespace Program

variable {w : World σ C E} {T : Terms σ C E} {speed : UInt32} {o : Origin} {kind : C → Prop} {P Q : σ → Prop}

theorem resolve_keeps (h : ChunkTerms w T speed o kind P) (keys : List Key) {found : List (Key × C)}
    (hfound : ∀ x ∈ found, kind x.2) :
    (resolve keys found).Keeps w T o P fun found s => (∀ x ∈ found, kind x.2) ∧ P s := by
  induction keys generalizing found with
  | nil => exact .done fun s H _ hP => ⟨fun x hx => hfound x (List.mem_reverse.mp hx), hP⟩
  | cons k rest ih =>
    refine (Keeps.call (fun c => (Terms.Lasts.const T _ _).and h.lasts) (h.lookUp k)).bind fun c => .assume fun hc => ?_
    cases c with
    | none => exact ih hfound
    | some c => exact ih (List.forall_mem_cons.mpr ⟨hc c rfl, hfound⟩)

theorem tickFound_keeps (h : ChunkTerms w T speed o kind P) {found : List (Key × C)} (hfound : ∀ x ∈ found, kind x.2) :
    (tickFound speed found).Keeps w T o P fun _ => P := by
  induction found with
  | nil => exact .done fun _ _ _ hP => hP
  | cons x rest ih =>
    obtain ⟨hx, hrest⟩ := List.forall_mem_cons.mp hfound
    exact (Keeps.call (fun _ => h.lasts) (h.tick x.2 hx)).bind fun _ => (Keeps.note _).bind fun _ => ih hrest

theorem tickAll_keeps (h : ChunkTerms w T speed o kind P) {chunks : List C} (hchunks : ∀ c ∈ chunks, kind c) :
    (tickAll speed chunks).Keeps w T o P fun _ => P := by
  induction chunks with
  | nil => exact .done fun _ _ _ hP => hP
  | cons c rest ih =>
    obtain ⟨hc, hrest⟩ := List.forall_mem_cons.mp hchunks
    exact (Keeps.call (fun _ => h.lasts) (h.tick c hc)).bind fun _ => ih hrest

theorem regionTask_keeps (h : ChunkTerms w T speed o kind P) (keys : List Key) {entities : List E}
    (hoffers : (offerAll entities).Keeps w T o P fun _ => Q) :
    (regionTask speed keys entities).Keeps w T o P fun _ => Q :=
  (resolve_keeps h keys (by simp)).bind fun _ => .assume fun hfound => (tickFound_keeps h hfound).bind fun _ => hoffers

theorem sweep_keeps (h : ChunkTerms w T speed o kind P) {chunks : List C} (hchunks : ∀ c ∈ chunks, kind c)
    {entities : List E} (hoffers : (offerAll entities).Keeps w T o P fun _ => Q) :
    (sweep speed chunks entities).Keeps w T o P fun _ => Q :=
  (tickAll_keeps h hchunks).bind fun _ => hoffers

end Program

/-! ## A tick -/

/-- The part of a tick that offers an entity its tick. -/
def partOf (w : World σ C E) (enable : Bool) (turn : Turn C) (s : σ) (e : E) : Option Nat :=
  if enable then goesTo (w.cellOf s) turn.agents turn.settings.viewDistance e else none

/-- The tracked entities that a part offers their ticks, in order. -/
def shareOf (w : World σ C E) (enable : Bool) (turn : Turn C) (s : σ) (p : Option Nat) : List E :=
  (w.tracked s).filter fun e => partOf w enable turn s e = p

/-- Each part of a tick keeps to the terms: from `pre`, which holds at the beginning, to `post`. -/
structure TickTerms (w : World σ C E) (T : Terms σ C E) (enable : Bool) (turn : Turn C) (s : σ) (kind : C → Prop)
    (pre post : Option Nat → σ → Prop) : Prop where
  chunks : ∀ o : Origin, ChunkTerms w T turn.settings.randomTickSpeed o kind (pre o.place?)
  loaded : ∀ c ∈ turn.loaded, kind c
  offers : ∀ o : Origin, (Program.offerAll (shareOf w enable turn s o.place?)).Keeps w T o (pre o.place?)
    fun _ => post o.place?
  lasts : ∀ p, T.Lasts p (post p)
  tracked : enable = false → ∀ s' H, T.holds s' H → pre none s' → w.tracked s' = w.tracked s
  holds : T.holds s []
  start : ∀ p, pre p s

section Tick

variable {w : World σ C E} {T : Terms σ C E} {enable : Bool} {plan : Plan} {turn : Turn C} {s : σ} {kind : C → Prop}
  {pre post : Option Nat → σ → Prop}

/-- Lines that are no calls make no difference to what holds. -/
theorem Terms.holds_append {H lines : List (Event C E)} (h : T.holds s H) (hlines : ∀ ev ∈ lines, ev.origin? = none) :
    T.holds s (H ++ lines) := by
  induction lines generalizing H with
  | nil => rwa [List.append_nil]
  | cons ev rest ih =>
    obtain ⟨hev, hrest⟩ := List.forall_mem_cons.mp hlines
    rw [List.append_cons]
    refine ih (T.idle s H ev (fun o c a heq => ?_) h) hrest
    rw [heq] at hev
    cases hev

theorem TickTerms.dispatched (h : TickTerms w T true turn s kind pre post) (plan : Plan) :
    T.holds (dispatched w plan turn s).2.1 (dispatched w plan turn s).2.2.toList ∧
      pre none (dispatched w plan turn s).2.1 ∧
      ∀ job ∈ jobs (batchOf w turn s).regions.toList, post (some job.2) (dispatched w plan turn s).2.1 := by
  refine dispatch_keeps (fun i => pre (some i)) (fun i => (h.chunks (.task i (.ofPlace i))).lasts)
    (fun i => h.lasts (some i)) (h.chunks .caller).lasts ?_ h.holds (fun job _ => h.start _) (h.start none)
  rintro ⟨r, i⟩ hjob
  have hentities : r.entities.toList = shareOf w true turn s (some i) := buildBatch_entities (mem_jobs_batchOf.mp hjob)
  rw [jobProgram, hentities]
  exact Program.regionTask_keeps (h.chunks (jobOrigin (r, i))) _ (h.offers (jobOrigin (r, i)))

theorem mem_jobs_of_partOf {e : E} (he : e ∈ w.tracked s) {i : Nat} (hpart : partOf w true turn s e = some i) :
    ∃ job ∈ jobs (batchOf w turn s).regions.toList, job.2 = i := by
  rcases List.mem_append.mp ((buildBatch_contents).symm.subset he : e ∈ (batchOf w turn s).contents) with hmem | hmem
  · have hgoes := List.mem_filter.mp (buildBatch_unassigned ▸ hmem)
    exact absurd ((of_decide_eq_true hgoes.2).symm.trans hpart) nofun
  · obtain ⟨r, hr, her⟩ := List.mem_flatMap.mp hmem
    obtain ⟨j, hj⟩ := List.mem_iff_getElem?.mp hr
    rw [Array.getElem?_toList] at hj
    rw [buildBatch_entities hj, List.mem_filter, decide_eq_true_iff] at her
    exact ⟨(r, j), mem_jobs_batchOf.mpr hj, Option.some.inj (her.2.symm.trans hpart)⟩

theorem TickTerms.regions (h : TickTerms w T true turn s kind pre post) (plan : Plan) :
    ∃ summary, (untilJoin w true plan turn s).1 = .ok summary ∧
      T.holds (untilJoin w true plan turn s).2.1 (untilJoin w true plan turn s).2.2.toList ∧
      post none (untilJoin w true plan turn s).2.1 ∧
      ∀ e ∈ w.tracked s, post (partOf w true turn s e) (untilJoin w true plan turn s).2.1 := by
  obtain ⟨hholds, hpre, hposts⟩ := h.dispatched plan
  have hunassigned : (batchOf w turn s).unassigned.toList = shareOf w true turn s none := buildBatch_unassigned
  have hsweep : (sweep turn.settings.randomTickSpeed (leftOver w plan turn s)
      (batchOf w turn s).unassigned.toList).Keeps w T .caller (pre none) fun _ => post none := by
    rw [hunassigned]
    refine Program.sweep_keeps (h.chunks .caller) (fun c hc => h.loaded c ?_) (h.offers .caller)
    exact (mem_leftover.mp hc).1
  have hlines : T.holds (GridTick.dispatched w plan turn s).2.1 ((GridTick.dispatched w plan turn s).2.2 ++
      ((GridTick.dispatched w plan turn s).1.filterMap Outcome.notice?).toArray.map Event.noticed).toList := by
    rw [Array.toList_append]
    refine T.holds_append hholds fun ev hev => ?_
    rw [Array.toList_map] at hev
    obtain ⟨n, -, rfl⟩ := List.mem_map.mp hev
    rfl
  obtain ⟨_, trail, hrun, hholds', hpost, hothers⟩ := hsweep.run ∅ hlines hpre
  obtain ⟨hok, htrail⟩ := Prod.mk.inj ((run_sweep w plan turn s).symm.trans hrun)
  have hend : untilJoin w true plan turn s = (.ok (Summary.ofPhases w plan turn s), trail.state, trail.events) := by
    rw [untilJoin, if_pos rfl, tickRegions_eq, hok, ← htrail]
    rfl
  rw [hend]
  refine ⟨_, rfl, hholds', hpost, fun e he => ?_⟩
  cases hpart : partOf w true turn s e with
  | none => exact hpost
  | some i =>
    obtain ⟨job, hjob, rfl⟩ := mem_jobs_of_partOf he hpart
    exact hothers (some job.2) _ (Option.some_ne_none job.2) (h.lasts (some job.2)) (hposts job hjob)

theorem TickTerms.sequential (h : TickTerms w T false turn s kind pre post) (plan : Plan) :
    ∃ summary, (untilJoin w false plan turn s).1 = .ok summary ∧
      T.holds (untilJoin w false plan turn s).2.1 (untilJoin w false plan turn s).2.2.toList ∧
      post none (untilJoin w false plan turn s).2.1 := by
  have hall : shareOf w false turn s none = w.tracked s := by simp [shareOf, partOf]
  have hstart : T.holds s (#[] : Array (Event C E)).toList := h.holds
  have hchunks : (Program.tickAll turn.settings.randomTickSpeed turn.loaded : Program C E Unit).Keeps w T .caller
      (pre none) fun _ => pre none := Program.tickAll_keeps (h.chunks .caller) h.loaded
  have hoffers := h.offers .caller
  rw [Origin.place?, hall] at hoffers
  obtain ⟨_, ⟨s', keys, events⟩, hrun, hholds, hpre, -⟩ := hchunks.run ∅ hstart (h.start none)
  obtain ⟨_, trail, hrun', hholds', hpost, -⟩ := hoffers.run keys hholds hpre
  have htracked : w.tracked s' = w.tracked s := h.tracked rfl s' _ hholds hpre
  rw [← htracked] at hrun'
  refine ⟨{ Summary.zero with
    fallbackChunks := turn.loaded.length, unassignedEntities := (w.tracked s').length }, ?_⟩
  have hend : untilJoin w false plan turn s = (.ok { Summary.zero with
      fallbackChunks := turn.loaded.length, unassignedEntities := (w.tracked s').length },
      trail.state, trail.events) := by
    simp only [untilJoin, tickSequential, hrun, hrun']
    rfl
  rw [hend]
  exact ⟨rfl, hholds', hpost⟩

/-- A tick whose parts keep to terms returns.  The terms hold of its state and history, and each part leaves what it
was to leave. -/
theorem tick_keeps (h : TickTerms w T enable turn s kind pre post) (plan : Plan) :
    ∃ summary, (tick w enable plan turn s).summary = .ok summary ∧
      T.holds (tick w enable plan turn s).state (tick w enable plan turn s).events.toList ∧
      post none (tick w enable plan turn s).state ∧
      ∀ e ∈ w.tracked s, post (partOf w enable turn s e) (tick w enable plan turn s).state := by
  have huntil : ∃ summary, (untilJoin w enable plan turn s).1 = .ok summary ∧
      T.holds (untilJoin w enable plan turn s).2.1 (untilJoin w enable plan turn s).2.2.toList ∧
      post none (untilJoin w enable plan turn s).2.1 ∧
      ∀ e ∈ w.tracked s, post (partOf w enable turn s e) (untilJoin w enable plan turn s).2.1 := by
    cases enable with
    | true => exact h.regions plan
    | false =>
      obtain ⟨summary, hok, hholds, hpost⟩ := h.sequential plan
      exact ⟨summary, hok, hholds, hpost, fun _ _ => hpost⟩
  obtain ⟨summary, hok, hholds, hpost, hposts⟩ := huntil
  rw [tick_of_returned hok]
  refine ⟨summary, rfl, ?_, hpost, hposts⟩
  rw [joinDeferred_eq]
  exact T.holds_append hholds fun ev hev => origin?_of_joinLines hev

end Tick

end GridTick
