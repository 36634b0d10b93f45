import GridTick.Settings.Reader
import GridTick.Proofs.Settings.Scalars

/-!
# GridTick.Proofs.Settings.Document — the text of a list of settings

A list of settings is written as a map: names and scalars in their order, with blanks wherever tokens meet.  Reading
such a text comes to the same as taking the settings one by one, and stops at the first that is refused.  A name is
refused as soon as it is read, so what stands behind it does not matter.

* `Setting`, `Document`, `Begun`: settings, their texts, and texts that break off behind a name.
* `Entries.take`, `Entries.takeAll`: taking settings.
* `ofChars_document`: reading a text and taking its settings agree.
* `ofChars_begun`: a refused name is the end of the reading.
-/

namespace GridTick

/-- A name and the scalar that is given for it. -/
structure Setting where
  name : String
  value : Scalar
deriving DecidableEq, Repr

/-! ## Texts -/

/-- A setting as a member of a map. -/
inductive Setting.Written : Setting → List Char → Prop where
  | mk {name : String} {v : Scalar} {q b b' t : List Char} : InQuotes name q → Blanks b → Blanks b' → v.Written t →
      Setting.Written ⟨name, v⟩ (q ++ (b ++ ':' :: (b' ++ t)))

/-- Settings that follow another one, each behind a comma. -/
inductive Listed : List Setting → List Char → Prop where
  | nil : Listed [] []
  | cons {m : Setting} {ms : List Setting} {b b' t ts : List Char} : Blanks b → Blanks b' → m.Written t → Listed ms ts →
      Listed (m :: ms) (b ++ ',' :: (b' ++ (t ++ ts)))

/-- The text of a list of settings. -/
inductive Document : List Setting → List Char → Prop where
  | empty {a b c : List Char} : Blanks a → Blanks b → Blanks c → Document [] (a ++ '\x7b' :: (b ++ '\x7d' :: c))
  | filled {m : Setting} {ms : List Setting} {a b t ts c d : List Char} : Blanks a → Blanks b → m.Written t →
      Listed ms ts → Blanks c → Blanks d →
      Document (m :: ms) (a ++ '\x7b' :: (b ++ (t ++ (ts ++ (c ++ '\x7d' :: d)))))

/-- The text of a list of settings and of the name of one more, up to the quotation mark that closes the name. -/
inductive Begun : List Setting → String → List Char → Prop where
  | first {name : String} {a b q : List Char} : Blanks a → Blanks b → InQuotes name q →
      Begun [] name (a ++ '\x7b' :: (b ++ q))
  | later {m : Setting} {ms : List Setting} {name : String} {a b t ts c d q : List Char} : Blanks a → Blanks b →
      m.Written t → Listed ms ts → Blanks c → Blanks d → InQuotes name q →
      Begun (m :: ms) name (a ++ '\x7b' :: (b ++ (t ++ (ts ++ (c ++ ',' :: (d ++ q))))))

/-! ## Taking settings -/

namespace Entries

/-- Enter a scalar for an entry. -/
def put (e : Entries) : Field → Scalar → Except Refusal Entries
  | .enable, v => v.asFlag.map fun b => { e with enable := some b }
  | .threads, v => (v.asWord .threads).map fun n => { e with threads := some n }
  | .timeout, v => (v.asWord .seconds).map fun n => { e with timeout := some n }

/-- Take a setting: its name must be that of an entry, and of one that has no value yet. -/
def take (e : Entries) (m : Setting) : Except Refusal Entries :=
  match Field.ofName? m.name with
  | .none => .error (.unknownField m.name)
  | some field => if e.has field then .error (.duplicateField field) else e.put field m.value

/-- Take settings in their order, up to the first that is refused. -/
def takeAll (e : Entries) : List Setting → Except Refusal Entries
  | [] => .ok e
  | m :: ms =>
    match e.take m with
    | .error cause => .error cause
    | .ok e => e.takeAll ms

/-- Names that are refused as they stand. -/
def RefusesName (e : Entries) (name : String) (cause : Refusal) : Prop :=
  (Field.ofName? name = .none ∧ cause = .unknownField name) ∨
    ∃ field, Field.ofName? name = some field ∧ e.has field = true ∧ cause = .duplicateField field

end Entries

/-! ## What may follow -/

theorem stops_blanks {b s : List Char} (hb : Blanks b) (hs : Stops s) : Stops (b ++ s) := by
  cases b with
  | nil => exact hs
  | cons c b =>
    intro c' hc'
    cases hc'
    exact .inl (hb c List.mem_cons_self)

theorem stops_comma (s : List Char) : Stops (',' :: s) := by
  intro c hc
  cases hc
  exact .inr (.inl rfl)

theorem stops_brace (s : List Char) : Stops ('\x7d' :: s) := by
  intro c hc
  cases hc
  exact .inr (.inr rfl)

theorem Listed.stops {ms : List Setting} {ts s : List Char} (h : Listed ms ts) (hs : Stops s) : Stops (ts ++ s) := by
  cases h with
  | nil => exact hs
  | cons hb _ _ _ =>
    rw [List.append_assoc]
    exact stops_blanks hb (stops_comma _)

theorem Listed.length_le {ms : List Setting} {ts : List Char} (h : Listed ms ts) : ms.length ≤ ts.length := by
  induction h with
  | nil => exact Nat.le_refl 0
  | cons _ _ _ _ ih =>
    simp only [List.length_cons, List.length_append]
    omega

/-! ## One member -/

theorem readValue_written {v : Scalar} {b t s : List Char} (hb : Blanks b) (h : v.Written t) (hs : Stops s)
    (e : Entries) (field : Field) : e.readValue field (b ++ (t ++ s)) = told (e.put field v) s := by
  cases field with
  | enable =>
    rw [Entries.readValue, boolean_written hb h hs, Entries.put]
    cases v.asFlag <;> rfl
  | threads =>
    rw [Entries.readValue, natural_written hb h hs, Entries.put]
    cases v.asWord .threads <;> rfl
  | timeout =>
    rw [Entries.readValue, natural_written hb h hs, Entries.put]
    cases v.asWord .seconds <;> rfl

/-- A name that is refused as it stands ends the reading, whatever follows it. -/
theorem member_refusesName {e : Entries} {name : String} {cause : Refusal} (h : e.RefusesName name cause)
    {q : List Char} (hq : InQuotes name ('"' :: q)) (s : List Char) : member e (q ++ s) = .error (.refused cause) := by
  rw [member, quotedText_inQuotes hq]
  dsimp only
  rcases h with ⟨hnone, rfl⟩ | ⟨field, hsome, hhas, rfl⟩
  · rw [hnone]
  · rw [hsome]
    dsimp only
    rw [if_pos hhas]

/-- A member is read as its setting is taken. -/
theorem member_written {m : Setting} {t : List Char} (h : m.Written t) : ∃ t', t = '"' :: t' ∧
    ∀ (e : Entries) {s : List Char}, Stops s → member e (t' ++ s) = told (e.take m) s := by
  cases h with
  | @mk name v q b b' t hq hb hb' hv =>
    obtain ⟨q, rfl⟩ := hq.exists_cons
    refine ⟨_, List.cons_append, fun e s hs => ?_⟩
    have hcolon : colon (b ++ ':' :: (b' ++ t) ++ s) = .ok (b' ++ (t ++ s)) := by
      rw [List.append_assoc, List.cons_append, List.append_assoc, colon, skipBlank_append_cons hb rfl]
      rfl
    rw [List.append_assoc, member, quotedText_inQuotes hq, Entries.take]
    dsimp only
    cases hfield : Field.ofName? name with
    | none => rfl
    | some field =>
      dsimp only
      by_cases hhas : e.has field = true
      · rw [if_pos hhas, if_pos hhas]
        rfl
      · rw [if_neg hhas, if_neg hhas, hcolon]
        exact readValue_written hb' hv hs e field

/-! ## Maps -/

theorem nextName_quote {b : List Char} (hb : Blanks b) (s : List Char) : nextName (b ++ '"' :: s) = .ok s := by
  rw [nextName, skipBlank_append_cons hb rfl]
  rfl

theorem moreMembers_of_comma {s s' : List Char} (h : skipBlank s = ',' :: s') (fuel : Nat) (e : Entries) :
    moreMembers (fuel + 1) e s = match nextName s' with
      | .error problem => .error problem
      | .ok rest => match member e rest with
        | .error problem => .error problem
        | .ok (e, rest) => moreMembers fuel e rest := by
  rw [moreMembers, h]
  rfl

/-- Past a comma the next member is read, and then the others. -/
theorem moreMembers_comma {b b' : List Char} (hb : Blanks b) (hb' : Blanks b') (fuel : Nat) (e : Entries)
    (s : List Char) : moreMembers (fuel + 1) e (b ++ ',' :: (b' ++ '"' :: s)) = match member e s with
      | .error problem => .error problem
      | .ok (e, rest) => moreMembers fuel e rest := by
  rw [moreMembers_of_comma (skipBlank_append_cons hb rfl _), nextName_quote hb']

/-- Members in a row are read as their settings are taken; each of them uses up one unit of fuel. -/
theorem moreMembers_listed {ms : List Setting} {ts s : List Char} (h : Listed ms ts) (hs : Stops s) (fuel : Nat)
    (e : Entries) : moreMembers (ms.length + fuel) e (ts ++ s) = match e.takeAll ms with
      | .error cause => .error (.refused cause)
      | .ok e => moreMembers fuel e s := by
  induction h generalizing e with
  | nil => rw [List.length_nil, Nat.zero_add, List.nil_append, Entries.takeAll]
  | @cons m ms b b' t ts hb hb' hm hms ih =>
    obtain ⟨t, rfl, hmember⟩ := member_written hm
    rw [List.length_cons, Nat.add_right_comm, List.append_assoc, List.cons_append, List.append_assoc, List.cons_append,
      List.cons_append, moreMembers_comma hb hb', List.append_assoc, hmember e (hms.stops hs), Entries.takeAll]
    cases htake : e.take m with
    | error cause => rfl
    | ok e' => exact ih e'

theorem members_quote {s s' : List Char} (h : skipBlank s = '"' :: s') :
    members s = match member Entries.none s' with
      | .error problem => .error problem
      | .ok (e, rest) => moreMembers (s.length + 1) e rest := by
  rw [members, h]
  rfl

/-- The first member, and then the others, as many as there may be. -/
theorem members_first {m : Setting} {b t s : List Char} (hb : Blanks b) (hm : m.Written t) (hs : Stops s) :
    ∃ fuel, s.length < fuel ∧ members (b ++ (t ++ s)) = match Entries.none.take m with
      | .error cause => .error (.refused cause)
      | .ok e => moreMembers fuel e s := by
  obtain ⟨t, rfl, hmember⟩ := member_written hm
  refine ⟨(b ++ ('"' :: t ++ s)).length + 1, ?_, ?_⟩
  · simp only [List.length_append]
    omega
  · have hskip : skipBlank (b ++ ('"' :: t ++ s)) = '"' :: (t ++ s) := skipBlank_append_cons hb rfl _
    rw [members_quote hskip, hmember _ hs]
    cases Entries.none.take m with
    | error cause => rfl
    | ok e => rfl

/-- The members of a map up to a place between two tokens. -/
theorem members_listed {m : Setting} {ms : List Setting} {b t ts s : List Char} (hb : Blanks b) (hm : m.Written t)
    (hms : Listed ms ts) (hs : Stops s) : ∃ fuel, members (b ++ (t ++ (ts ++ s))) =
      match Entries.none.takeAll (m :: ms) with
      | .error cause => .error (.refused cause)
      | .ok e => moreMembers (fuel + 1) e s := by
  obtain ⟨fuel, hfuel, hfirst⟩ := members_first hb hm (hms.stops hs)
  have hlength := hms.length_le
  rw [List.length_append] at hfuel
  obtain ⟨more, rfl⟩ : ∃ more, fuel = ms.length + (more + 1) := ⟨fuel - ms.length - 1, by omega⟩
  refine ⟨more, ?_⟩
  rw [hfirst, Entries.takeAll]
  cases Entries.none.take m with
  | error cause => rfl
  | ok e => exact moreMembers_listed hms hs (more + 1) e

theorem moreMembers_brace {c : List Char} (hc : Blanks c) (fuel : Nat) (e : Entries) (s : List Char) :
    moreMembers (fuel + 1) e (c ++ '\x7d' :: s) = .ok (e, s) := by
  rw [moreMembers, skipBlank_append_cons hc rfl]
  rfl

/-! ## Whole texts -/

theorem ofChars_brace {a : List Char} (ha : Blanks a) (s : List Char) :
    Config.ofChars (a ++ '\x7b' :: s) = match members s with
      | .error problem => .error problem
      | .ok (e, rest) => finished e.toConfig rest := by
  rw [Config.ofChars, skipBlank_append_cons ha rfl]
  rfl

theorem finished_blanks {d : List Char} (hd : Blanks d) (c : Config) : finished c d = .ok c := by
  have hnil : skipBlank d = [] := by
    rw [← List.append_nil d, skipBlank_append hd]
    rfl
  rw [finished, hnil]

/-- Reading the text of a list of settings comes to the same as taking them one by one. -/
theorem ofChars_document {ms : List Setting} {t : List Char} (h : Document ms t) :
    Config.ofChars t = match Entries.none.takeAll ms with
      | .error cause => .error (.refused cause)
      | .ok e => .ok e.toConfig := by
  cases h with
  | empty ha hb hc =>
    rw [ofChars_brace ha, members, skipBlank_append_cons hb rfl]
    exact finished_blanks hc _
  | filled ha hb hm hms hc hd =>
    obtain ⟨fuel, hmembers⟩ := members_listed hb hm hms (stops_blanks hc (stops_brace _))
    rw [ofChars_brace ha, hmembers]
    cases Entries.none.takeAll _ with
    | error cause => rfl
    | ok e =>
      dsimp only
      rw [moreMembers_brace hc]
      exact finished_blanks hd _

/-- A refused name is the end of the reading, once the settings before it have been taken. -/
theorem ofChars_begun {ms : List Setting} {name : String} {t : List Char} (h : Begun ms name t) {e : Entries}
    (he : Entries.none.takeAll ms = .ok e) {cause : Refusal} (hname : e.RefusesName name cause) (s : List Char) :
    Config.ofChars (t ++ s) = .error (.refused cause) := by
  cases h with
  | first ha hb hq =>
    obtain ⟨q, rfl⟩ := hq.exists_cons
    cases he
    rw [List.append_assoc, List.cons_append, List.append_assoc, List.cons_append, ofChars_brace ha,
      members_quote (skipBlank_append_cons hb rfl _), member_refusesName hname hq]
  | later ha hb hm hms hc hd hq =>
    obtain ⟨q, rfl⟩ := hq.exists_cons
    have hassoc : ∀ {a b t ts c d : List Char}, a ++ '\x7b' :: (b ++ (t ++ (ts ++ (c ++ ',' :: (d ++ '"' :: q))))) ++ s =
        a ++ '\x7b' :: (b ++ (t ++ (ts ++ (c ++ ',' :: (d ++ '"' :: (q ++ s)))))) := by
      intro a b t ts c d
      simp only [List.append_assoc, List.cons_append]
    obtain ⟨fuel, hmembers⟩ := members_listed hb hm hms (stops_blanks hc (stops_comma _))
    rw [hassoc, ofChars_brace ha, hmembers, he]
    dsimp only
    rw [moreMembers_comma hc hd, member_refusesName hname hq]

/-! ## Every list of settings has a text -/

theorem Setting.exists_written {m : Setting} (h : m.value.Short) : ∃ t, m.Written t := by
  obtain ⟨q, hq⟩ := exists_inQuotes m.name
  obtain ⟨t, ht⟩ := Scalar.exists_written h
  exact ⟨_, .mk hq blanks_nil blanks_nil ht⟩

theorem exists_listed {ms : List Setting} (h : ∀ m ∈ ms, m.value.Short) : ∃ ts, Listed ms ts := by
  induction ms with
  | nil => exact ⟨[], .nil⟩
  | cons m ms ih =>
    obtain ⟨t, ht⟩ := Setting.exists_written (h m List.mem_cons_self)
    obtain ⟨ts, hts⟩ := ih fun m' hm' => h m' (List.mem_cons_of_mem m hm')
    exact ⟨_, .cons blanks_nil blanks_nil ht hts⟩

theorem exists_document {ms : List Setting} (h : ∀ m ∈ ms, m.value.Short) : ∃ t, Document ms t := by
  cases ms with
  | nil => exact ⟨_, .empty blanks_nil blanks_nil blanks_nil⟩
  | cons m ms =>
    obtain ⟨t, ht⟩ := Setting.exists_written (h m List.mem_cons_self)
    obtain ⟨ts, hts⟩ := exists_listed fun m' hm' => h m' (List.mem_cons_of_mem m hm')
    exact ⟨_, .filled blanks_nil blanks_nil ht hts blanks_nil blanks_nil⟩

end GridTick
