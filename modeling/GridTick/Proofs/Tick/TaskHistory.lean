import GridTick.Proofs.Tick.Ends

/-!
# GridTick.Proofs.Tick.TaskHistory — the histories of region tasks and sweeps

The task of a region looks up its keys, ticks what it found, and offers its entities their ticks; a fault cuts this
short at one call.

* `resolve_ends`, `tickFound_ends`, `offerAll_ends`: what each of the three loops may leave.
* `TaskHistory`, `regionTask_ends`: what the whole task may leave, by the loop in which it stops.
* `tickAll_ends`: what the chunk ticks of the calling thread may leave.
* `TaskHistory.ticks`, `TaskHistory.offers`: the chunks and the entities in such a history.
-/

namespace GridTick

variable {C E : Type}

/-- A look-up that returned. -/
def Event.lookedUp (o : Origin) (p : Key × Option C) : Event C E := .called o (.lookup p.1) (.ok p.2)

/-- A chunk tick that returned, and the note of its key. -/
def Event.tickedUnder (o : Origin) (speed : UInt32) (p : Key × C) : List (Event C E) :=
  [.called o (.tickChunk p.2 speed) (.ok ()), .marked o (.recorded p.1)]

/-- The chunks that look-ups found, with their keys. -/
def hits (pairs : List (Key × Option C)) : List (Key × C) := pairs.filterMap fun p => p.2.map (p.1, ·)

/-- A call that the contract makes for an entity. -/
def Call.OfContract : Call C E → Prop
  | .lookup _ => False
  | .tickChunk _ _ => False
  | .isRemoved _ => True
  | .isFrozen _ => True
  | .vehicle _ => True
  | .hasPassenger _ _ => True
  | .stopRiding _ => True
  | .checkDespawn _ => True
  | .tickEntity _ => True

/-- An event that offering an entity its tick leaves. -/
def Event.OfOffer : Event C E → Prop
  | .called _ c _ => c.OfContract
  | .marked _ (.recorded _) => False
  | .marked _ (.offered _) => True
  | .marked _ (.settled _ _) => True
  | .noticed _ => False
  | .joined => False

namespace Program

variable {o : Origin} {H : List (Event C E)} {speed : UInt32}

/-! ## Look-ups -/

theorem resolve_ends {keys : List Key} {found : List (Key × C)} {r : Except Fault (List (Key × C))}
    (h : Ends o (resolve keys found) H r) :
    (∃ pairs : List (Key × Option C), pairs.map Prod.fst = keys ∧ H = pairs.map (Event.lookedUp o) ∧
        r = .ok (found.reverse ++ hits pairs)) ∨
      ∃ (pairs : List (Key × Option C)) (k : Key) (rest : List Key) (fault : Fault),
        keys = pairs.map Prod.fst ++ k :: rest ∧
        H = pairs.map (Event.lookedUp o) ++ [.called o (.lookup k) (.error fault)] ∧ r = .error fault := by
  induction keys generalizing found H with
  | nil =>
    obtain ⟨rfl, rfl⟩ := ends_done h
    exact .inl ⟨[], rfl, rfl, by simp [hits]⟩
  | cons k rest ih =>
    rw [resolve, bind_eq] at h
    rcases h.call_inv with ⟨answer, H', rfl, hnext⟩ | ⟨fault, rfl, rfl⟩
    · -- the chunk, if there is one, joins those found before
      have hrest : ∃ found', Ends o (resolve rest found') H' r ∧
          ∀ pairs, found'.reverse ++ hits pairs = found.reverse ++ hits ((k, answer) :: pairs) := by
        cases answer with
        | none => exact ⟨found, hnext, fun _ => rfl⟩
        | some c => exact ⟨(k, c) :: found, hnext, fun _ => by simp [hits]⟩
      obtain ⟨found', hnext', hfound⟩ := hrest
      rcases ih hnext' with ⟨pairs, rfl, rfl, rfl⟩ | ⟨pairs, k', rest', fault, rfl, rfl, rfl⟩
      · exact .inl ⟨(k, answer) :: pairs, rfl, rfl, by rw [hfound]⟩
      · exact .inr ⟨(k, answer) :: pairs, k', rest', fault, rfl, rfl, rfl⟩
    · exact .inr ⟨[], k, rest, fault, rfl, rfl, rfl⟩

/-! ## Chunk ticks -/

theorem tickFound_ends {found : List (Key × C)} {r : Except Fault Unit} (h : Ends o (tickFound speed found) H r) :
    (H = found.flatMap (Event.tickedUnder o speed) ∧ r = .ok ()) ∨
      ∃ (done : List (Key × C)) (p : Key × C) (rest : List (Key × C)) (fault : Fault), found = done ++ p :: rest ∧
        H = done.flatMap (Event.tickedUnder o speed) ++ [.called o (.tickChunk p.2 speed) (.error fault)] ∧
        r = .error fault := by
  induction found generalizing H with
  | nil =>
    obtain ⟨rfl, rfl⟩ := ends_done h
    exact .inl ⟨rfl, rfl⟩
  | cons p rest ih =>
    rw [tickFound, bind_eq] at h
    rcases h.call_inv with ⟨answer, H', rfl, hnext⟩ | ⟨fault, rfl, rfl⟩
    · rw [bind_eq] at hnext
      obtain ⟨H'', rfl, hrest⟩ := hnext.note_inv
      rcases ih hrest with ⟨rfl, rfl⟩ | ⟨done, q, rest', fault, rfl, rfl, rfl⟩
      · exact .inl ⟨rfl, rfl⟩
      · exact .inr ⟨p :: done, q, rest', fault, rfl, rfl, rfl⟩
    · exact .inr ⟨[], p, rest, fault, rfl, rfl, rfl⟩

theorem tickAll_ends {chunks : List C} {r : Except Fault Unit} (h : Ends o (tickAll speed chunks) H r) :
    (H = chunks.map (fun c => .called o (.tickChunk c speed) (.ok ())) ∧ r = .ok ()) ∨
      ∃ (done : List C) (c : C) (rest : List C) (fault : Fault), chunks = done ++ c :: rest ∧
        H = done.map (fun c => .called o (.tickChunk c speed) (.ok ())) ++
          [.called o (.tickChunk c speed) (.error fault)] ∧
        r = .error fault := by
  induction chunks generalizing H with
  | nil =>
    obtain ⟨rfl, rfl⟩ := ends_done h
    exact .inl ⟨rfl, rfl⟩
  | cons c rest ih =>
    rw [tickAll, bind_eq] at h
    rcases h.call_inv with ⟨answer, H', rfl, hnext⟩ | ⟨fault, rfl, rfl⟩
    · rcases ih hnext with ⟨rfl, rfl⟩ | ⟨done, d, rest', fault, rfl, rfl, rfl⟩
      · exact .inl ⟨rfl, rfl⟩
      · exact .inr ⟨c :: done, d, rest', fault, rfl, rfl, rfl⟩
    · exact .inr ⟨[], c, rest, fault, rfl, rfl, rfl⟩

/-! ## Offers -/

theorem contract_asksOnly (e : E) : (contract e : Program C E EntityTick).AsksOnly Call.OfContract := by
  have hcarries : ∀ v, (stillCarries v e : Program C E Bool).AsksOnly Call.OfContract := by
    intro v
    refine AsksOnly.bind (.call trivial) fun gone => ?_
    split
    · exact trivial
    · exact .call trivial
  have hpart : (takePart e : Program C E EntityTick).AsksOnly Call.OfContract := by
    refine AsksOnly.bind (.call trivial) fun _ => AsksOnly.bind (.call trivial) fun vehicle => ?_
    cases vehicle with
    | none => exact AsksOnly.bind (.call trivial) fun _ => trivial
    | some v =>
      refine AsksOnly.bind (hcarries v) fun carried => ?_
      cases carried with
      | true => exact trivial
      | false => exact AsksOnly.bind (.call trivial) fun _ => AsksOnly.bind (.call trivial) fun _ => trivial
  refine AsksOnly.bind (.call trivial) fun gone => ?_
  cases gone with
  | true => exact trivial
  | false =>
    refine AsksOnly.bind (.call trivial) fun frozen => ?_
    cases frozen with
    | true => exact trivial
    | false => exact hpart

end Program

theorem offered_append (H₁ H₂ : List (Event C E)) : offered (H₁ ++ H₂) = offered H₁ ++ offered H₂ :=
  List.filterMap_append

theorem offered_eq_nil {H : List (Event C E)} (h : ∀ ev ∈ H, ev.offered? = none) : offered H = [] :=
  List.filterMap_eq_nil_iff.mpr h

namespace Program

variable {o : Origin} {H : List (Event C E)} {speed : UInt32}

theorem contract_ends {e : E} {r : Except Fault EntityTick} (h : Ends o (contract e) H r) :
    (∀ ev ∈ H, ev.OfOffer) ∧ offered H = [] := by
  have hcalls := h.asksOnly (contract_asksOnly e)
  refine ⟨fun ev hev => ?_, offered_eq_nil fun ev hev => ?_⟩
  · obtain ⟨c, a, rfl, hc⟩ := hcalls ev hev
    exact hc
  · obtain ⟨c, a, rfl, -⟩ := hcalls ev hev
    rfl

/-- An offer is noted, makes the calls of the contract, and if these end well is noted again. -/
theorem offer_ends {e : E} {r : Except Fault EntityTick} (h : Ends o (offer e) H r) :
    (∀ ev ∈ H, ev.OfOffer) ∧ offered H = [e] ∧
      ∀ fault, r = .error fault → ∃ H', H = .marked o (.offered e) :: H' ∧ Ends o (contract e) H' (.error fault) := by
  rw [offer, bind_eq] at h
  obtain ⟨H', rfl, hbody⟩ := h.note_inv
  rw [bind_eq] at hbody
  rcases hbody.bind_inv with ⟨result, H₁, H₂, rfl, h₁, h₂⟩ | ⟨fault, rfl, h₁⟩
  · rw [bind_eq] at h₂
    obtain ⟨H₃, rfl, h₃⟩ := h₂.note_inv
    obtain ⟨rfl, rfl⟩ := ends_done h₃
    obtain ⟨hof, ho⟩ := contract_ends h₁
    refine ⟨?_, ?_, nofun⟩
    · simpa [Event.OfOffer, or_imp, forall_and] using hof
    · rw [← List.singleton_append, offered_append, offered_append, ho]
      rfl
  · obtain ⟨hof, ho⟩ := contract_ends h₁
    refine ⟨?_, ?_, ?_⟩
    · simpa [Event.OfOffer] using hof
    · rw [← List.singleton_append, offered_append, ho]
      rfl
    · rintro _ ⟨rfl⟩
      exact ⟨H', rfl, h₁⟩

/-- Offers go through the entities in order; a fault stops them at the entity whose contract raised it. -/
theorem offerAll_ends {entities : List E} {r : Except Fault Unit} (h : Ends o (offerAll entities) H r) :
    (∀ ev ∈ H, ev.OfOffer) ∧
      ((r = .ok () ∧ offered H = entities) ∨
        ∃ (H₁ : List (Event C E)) (e : E) (rest : List E) (H₂ : List (Event C E)) (fault : Fault), r = .error fault ∧
          entities = offered H₁ ++ e :: rest ∧ H = H₁ ++ .marked o (.offered e) :: H₂ ∧
          Ends o (contract e) H₂ (.error fault)) := by
  induction entities generalizing H with
  | nil =>
    obtain ⟨rfl, rfl⟩ := ends_done h
    exact ⟨by simp, .inl ⟨rfl, rfl⟩⟩
  | cons e rest ih =>
    rw [offerAll, bind_eq] at h
    rcases h.bind_inv with ⟨result, H₁, H₂, rfl, h₁, h₂⟩ | ⟨fault, rfl, h₁⟩
    · obtain ⟨hof, ho, -⟩ := offer_ends h₁
      obtain ⟨hof', hrest⟩ := ih h₂
      refine ⟨fun ev hev => (List.mem_append.mp hev).elim (hof ev) (hof' ev), ?_⟩
      rcases hrest with ⟨rfl, ho'⟩ | ⟨H₃, e', rest', H₄, fault, rfl, rfl, rfl, hcontract⟩
      · exact .inl ⟨rfl, by rw [offered_append, ho, ho']; rfl⟩
      · refine .inr ⟨H₁ ++ H₃, e', rest', H₄, fault, rfl, ?_, ?_, hcontract⟩
        · rw [offered_append, ho]
          rfl
        · rw [List.append_assoc]
    · obtain ⟨hof, ho, hfault⟩ := offer_ends h₁
      obtain ⟨H', rfl, hcontract⟩ := hfault fault rfl
      exact ⟨hof, .inr ⟨[], e, rest, H', fault, rfl, rfl, rfl, hcontract⟩⟩

/-! ## The whole task -/

/-- What a region's task may leave, by the loop in which it stops. -/
inductive TaskHistory (o : Origin) (speed : UInt32) (keys : List Key) (entities : List E) :
    List (Event C E) → Except Fault Unit → Prop
  | lookup (pairs : List (Key × Option C)) (k : Key) (rest : List Key) (fault : Fault)
    (hkeys : keys = pairs.map Prod.fst ++ k :: rest) :
    TaskHistory o speed keys entities (pairs.map (Event.lookedUp o) ++ [.called o (.lookup k) (.error fault)])
      (.error fault)
  | tick (pairs : List (Key × Option C)) (done : List (Key × C)) (p : Key × C) (rest : List (Key × C))
    (fault : Fault) (hkeys : pairs.map Prod.fst = keys) (hhits : hits pairs = done ++ p :: rest) :
    TaskHistory o speed keys entities
      (pairs.map (Event.lookedUp o) ++ (done.flatMap (Event.tickedUnder o speed) ++
        [.called o (.tickChunk p.2 speed) (.error fault)])) (.error fault)
  | offer (pairs : List (Key × Option C)) (H : List (Event C E)) (r : Except Fault Unit)
    (hkeys : pairs.map Prod.fst = keys) (hoffers : Ends o (offerAll entities) H r) :
    TaskHistory o speed keys entities
      (pairs.map (Event.lookedUp o) ++ ((hits pairs).flatMap (Event.tickedUnder o speed) ++ H)) r

theorem regionTask_ends {keys : List Key} {entities : List E} {r : Except Fault Unit}
    (h : Ends o (regionTask speed keys entities) H r) : TaskHistory o speed keys entities H r := by
  rw [regionTask, bind_eq] at h
  rcases h.bind_inv with ⟨found, H₁, H₂, rfl, h₁, h₂⟩ | ⟨fault, rfl, h₁⟩
  · obtain ⟨pairs, hkeys, rfl, hfound⟩ | ⟨_, _, _, _, -, -, hr⟩ := resolve_ends h₁
    · obtain rfl : found = hits pairs := by simpa using hfound
      rw [bind_eq] at h₂
      rcases h₂.bind_inv with ⟨_, H₃, H₄, rfl, h₃, h₄⟩ | ⟨fault, rfl, h₃⟩
      · obtain ⟨rfl, -⟩ | ⟨_, _, _, _, -, -, hr⟩ := tickFound_ends h₃
        · exact .offer pairs H₄ r hkeys h₄
        · cases hr
      · obtain ⟨-, hr⟩ | ⟨done, p, rest, _, hhits, rfl, hr⟩ := tickFound_ends h₃
        · cases hr
        · cases hr
          exact .tick pairs done p rest fault hkeys hhits
    · cases hr
  · obtain ⟨_, -, -, hr⟩ | ⟨pairs, k, rest, _, hkeys, rfl, hr⟩ := resolve_ends h₁
    · cases hr
    · cases hr
      exact .lookup pairs k rest fault hkeys

end Program

/-! ## Chunks in the history of a task -/

section Chunks

variable {o : Origin} {H : List (Event C E)} {speed : UInt32}

theorem not_ofOffer_lookedUp {pairs : List (Key × Option C)} {ev : Event C E}
    (hev : ev ∈ pairs.map (Event.lookedUp o)) : ¬ ev.OfOffer := by
  obtain ⟨_, -, rfl⟩ := List.mem_map.mp hev
  exact id

theorem not_ofOffer_tickedUnder {done : List (Key × C)} {ev : Event C E}
    (hev : ev ∈ done.flatMap (Event.tickedUnder o speed)) : ¬ ev.OfOffer := by
  obtain ⟨p, -, hev⟩ := List.mem_flatMap.mp hev
  rcases List.mem_cons.mp hev with rfl | hev
  · exact id
  · obtain rfl := List.mem_singleton.mp hev
    exact id

/-- The chunk ticks of the calling thread offer nobody anything. -/
theorem not_ofOffer_tickAll {chunks : List C} {r : Except Fault Unit}
    (h : Program.Ends o (Program.tickAll speed chunks) H r) : ∀ ev ∈ H, ¬ ev.OfOffer := by
  intro ev hev
  rcases Program.tickAll_ends h with ⟨rfl, -⟩ | ⟨done, c, rest, fault, -, rfl, -⟩
  · obtain ⟨c, -, rfl⟩ := List.mem_map.mp hev
    exact id
  · rcases List.mem_append.mp hev with hev | hev
    · obtain ⟨c, -, rfl⟩ := List.mem_map.mp hev
      exact id
    · obtain rfl := List.mem_singleton.mp hev
      exact id

theorem chunkTick?_of_ofOffer {ev : Event C E} (h : ev.OfOffer) : ev.chunkTick? = none := by
  rcases ev with ⟨_, c, _⟩ | _ | _ | _
  · cases c with
    | lookup => exact h.elim
    | tickChunk => exact h.elim
    | _ => rfl
  · rfl
  · rfl
  · rfl

theorem filterMap_chunkTick?_lookedUp (pairs : List (Key × Option C)) :
    (pairs.map (Event.lookedUp (E := E) o)).filterMap Event.chunkTick? = [] := by
  rw [List.filterMap_map, List.filterMap_eq_nil_iff]
  exact fun _ _ => rfl

theorem filterMap_chunkTick?_tickedUnder (done : List (Key × C)) :
    (done.flatMap (Event.tickedUnder (E := E) o speed)).filterMap Event.chunkTick? =
      done.map fun p => (o.lane, p.2, speed) := by
  induction done with
  | nil => rfl
  | cons p rest ih =>
    rw [List.flatMap_cons, List.filterMap_append, ih]
    rfl

theorem mem_recordedKeys {keys : KeySet} {k : Key} :
    k ∈ recordedKeys keys H ↔ k ∈ keys ∨ ∃ o, .marked o (.recorded k) ∈ H := by
  induction H generalizing keys with
  | nil => simp [recordedKeys]
  | cons ev rest ih =>
    have hstep : recordedKeys keys (ev :: rest) = recordedKeys (ev.record keys) rest := rfl
    have hrec : k ∈ ev.record keys ↔ k ∈ keys ∨ ∃ o, ev = .marked o (.recorded k) := by
      rcases ev with _ | ⟨o, m⟩ | _ | _
      · simp [Event.record]
      · cases m with
        | recorded k' =>
          rw [Event.record, Mark.record, KeySet.mem_insert]
          simp [or_comm, eq_comm]
        | offered => simp [Event.record, Mark.record]
        | settled => simp [Event.record, Mark.record]
      · simp [Event.record]
      · simp [Event.record]
    rw [hstep, ih, hrec]
    simp only [List.mem_cons, exists_or, or_assoc, eq_comm]

theorem marked_mem_tickedUnder {done : List (Key × C)} {o' : Origin} {k : Key} :
    (.marked o' (.recorded k) : Event C E) ∈ done.flatMap (Event.tickedUnder o speed) ↔
      o' = o ∧ k ∈ done.map Prod.fst := by
  simp [Event.tickedUnder, and_comm]

/-- A task ticks a prefix of the chunks that it found, found under a prefix of its keys, and notes their keys. -/
theorem Program.TaskHistory.ticks {keys : List Key} {entities : List E} {r : Except Fault Unit}
    (h : Program.TaskHistory o speed keys entities H r) :
    ∃ (pairs : List (Key × Option C)) (done : List (Key × C)),
      done <+: hits pairs ∧ pairs.map Prod.fst <+: keys ∧ (∀ p ∈ pairs, Event.lookedUp o p ∈ H) ∧
      H.filterMap Event.chunkTick? = done.map (fun p => (o.lane, p.2, speed)) ∧
      ∀ k, k ∈ recordedKeys ∅ H ↔ k ∈ done.map Prod.fst := by
  cases h with
  | lookup pairs k rest fault hkeys =>
    refine ⟨pairs, [], List.nil_prefix, ⟨k :: rest, hkeys.symm⟩, ?_, ?_, ?_⟩
    · exact fun p hp => List.mem_append_left _ (List.mem_map_of_mem hp)
    · rw [List.filterMap_append, filterMap_chunkTick?_lookedUp]
      rfl
    · intro k
      rw [mem_recordedKeys]
      simp [Event.lookedUp]
  | tick pairs done p rest fault hkeys hhits =>
    refine ⟨pairs, done, ⟨p :: rest, hhits.symm⟩, hkeys ▸ List.prefix_rfl, ?_, ?_, ?_⟩
    · exact fun p hp => List.mem_append_left _ (List.mem_map_of_mem hp)
    · rw [List.filterMap_append, List.filterMap_append, filterMap_chunkTick?_lookedUp,
        filterMap_chunkTick?_tickedUnder]
      simp [Event.chunkTick?]
    · intro k
      simp only [mem_recordedKeys, List.mem_append, marked_mem_tickedUnder]
      simp [Event.lookedUp]
  | offer pairs O r hkeys hoffers =>
    obtain ⟨hof, -⟩ := Program.offerAll_ends hoffers
    refine ⟨pairs, hits pairs, List.prefix_rfl, hkeys ▸ List.prefix_rfl, ?_, ?_, ?_⟩
    · exact fun p hp => List.mem_append_left _ (List.mem_map_of_mem hp)
    · have hO : O.filterMap Event.chunkTick? = [] :=
        List.filterMap_eq_nil_iff.mpr fun ev hev => chunkTick?_of_ofOffer (hof ev hev)
      rw [List.filterMap_append, List.filterMap_append, filterMap_chunkTick?_lookedUp,
        filterMap_chunkTick?_tickedUnder, hO]
      simp
    · intro k
      have hO : ∀ o', (.marked o' (.recorded k) : Event C E) ∉ O := fun o' hmem => hof _ hmem
      simp only [mem_recordedKeys, List.mem_append, marked_mem_tickedUnder, hO]
      simp [Event.lookedUp]

end Chunks

/-! ## Entities in the history of a task -/

section Entities

variable {o : Origin} {H : List (Event C E)} {speed : UInt32} {entities : List E} {r : Except Fault Unit}

/-- What has been offered when a task ends: all its entities; none, if a look-up or a chunk tick raised the fault; or
those up to the entity whose contract raised it. -/
inductive Offers (o : Origin) (entities : List E) (H : List (Event C E)) : Except Fault Unit → Prop
  | all (hall : offered H = entities) : Offers o entities H (.ok ())
  | none (H' : List (Event C E)) (c : Call C E) (fault : Fault) (hlast : H = H' ++ [.called o c (.error fault)])
    (hchunk : ¬ c.OfContract) (hnone : offered H = []) : Offers o entities H (.error fault)
  | upTo (H₁ : List (Event C E)) (e : E) (rest : List E) (H₂ : List (Event C E)) (fault : Fault)
    (hentities : entities = offered H₁ ++ e :: rest) (hlast : H = H₁ ++ .marked o (.offered e) :: H₂)
    (hcontract : Program.Ends o (Program.contract e) H₂ (.error fault)) (hupTo : offered H = offered H₁ ++ [e]) :
    Offers o entities H (.error fault)

theorem Offers.isPrefix (h : Offers o entities H r) : offered H <+: entities := by
  cases h with
  | all hall => exact hall ▸ List.prefix_rfl
  | none _ _ _ _ _ hnone => exact hnone ▸ List.nil_prefix
  | upTo H₁ e rest _ _ hentities _ _ hupTo =>
    rw [hupTo, hentities]
    exact ⟨rest, by simp⟩

theorem offered_lookedUp (pairs : List (Key × Option C)) :
    offered (pairs.map (Event.lookedUp (E := E) o)) = [] := by
  refine offered_eq_nil fun ev hev => ?_
  obtain ⟨_, -, rfl⟩ := List.mem_map.mp hev
  rfl

theorem offered_tickedUnder (done : List (Key × C)) :
    offered (done.flatMap (Event.tickedUnder (E := E) o speed)) = [] := by
  refine offered_eq_nil fun ev hev => ?_
  obtain ⟨p, -, hev⟩ := List.mem_flatMap.mp hev
  rcases List.mem_cons.mp hev with rfl | hev
  · rfl
  · obtain rfl := List.mem_singleton.mp hev
    rfl

theorem offered_upTo {H₁ H₂ : List (Event C E)} {e : E} (h : offered H₂ = []) :
    offered (H₁ ++ .marked o (.offered e) :: H₂) = offered H₁ ++ [e] := by
  rw [← List.singleton_append, offered_append, offered_append, h]
  rfl

theorem Program.TaskHistory.offers {keys : List Key} (h : Program.TaskHistory o speed keys entities H r) :
    Offers o entities H r := by
  cases h with
  | lookup pairs k rest fault hkeys =>
    refine .none _ _ _ rfl id ?_
    rw [offered_append, offered_lookedUp]
    rfl
  | tick pairs done p rest fault hkeys hhits =>
    refine .none _ _ _ (List.append_assoc ..).symm id ?_
    rw [offered_append, offered_append, offered_lookedUp, offered_tickedUnder]
    rfl
  | offer pairs O _ hkeys hoffers =>
    obtain ⟨-, ⟨rfl, hall⟩ | ⟨H₁, e, rest, H₂, fault, rfl, hentities, rfl, hcontract⟩⟩ := Program.offerAll_ends hoffers
    · refine .all ?_
      rw [offered_append, offered_append, offered_lookedUp, offered_tickedUnder, hall]
      rfl
    · let chunks := pairs.map (Event.lookedUp (E := E) o) ++ (hits pairs).flatMap (Event.tickedUnder (E := E) o speed)
      have hbefore : offered (chunks ++ H₁) = offered H₁ := by
        rw [offered_append, offered_append, offered_lookedUp, offered_tickedUnder]
        rfl
      have hsplit : pairs.map (Event.lookedUp o) ++ ((hits pairs).flatMap (Event.tickedUnder o speed) ++
          (H₁ ++ .marked o (.offered e) :: H₂)) = chunks ++ H₁ ++ .marked o (.offered e) :: H₂ := by
        simp only [chunks, List.append_assoc]
      refine .upTo (chunks ++ H₁) e rest H₂ fault ?_ hsplit hcontract ?_
      · rw [hbefore, hentities]
      · rw [hsplit, offered_upTo (Program.contract_ends hcontract).2]

end Entities

end GridTick
