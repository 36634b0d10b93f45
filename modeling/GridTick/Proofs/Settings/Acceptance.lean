import GridTick.Proofs.Settings.Document

/-!
# GridTick.Proofs.Settings.Acceptance — which settings are accepted

Settings make up a configuration when no name occurs twice, each name is that of an entry, and each scalar is one that
its entry takes.  The configuration is then the standard one with these entries replaced, in whatever order they are
given.  Otherwise there is a first setting that does not fit those before it, and its cause is the one reported; when
it is the name that does not fit, nothing behind the name has been looked at.

* `Acceptable`, `Overridden`: settings that make up a configuration, and the one that they make up.
* `Misnamed`, `Offends`: settings that do not fit those before them.
* `Entries.Holds`, `take_fits`, `take_offends`: what one more setting does to the entries read.
* `takeAll_acceptable`, `exists_offence`: all settings are taken, or there is a first offence.
* `parse_settings`: the text of a list of settings.
* `Config.exists_text`: every configuration has a text.
-/

namespace GridTick

/-! ## What is accepted -/

/-- The value of an entry, as a scalar. -/
def Config.value (c : Config) : Field → Scalar
  | .enable => .boolean c.enable
  | .threads => .integer c.threads.toNat
  | .timeout => .integer c.timeoutSeconds.toNat

/-- Whole numbers that a word holds. -/
def Scalar.IsWord (v : Scalar) : Prop := ∃ n : Int, v = .integer n ∧ 0 ≤ n ∧ n < 2 ^ 64

/-- The scalars that an entry takes: truth values for the switch, words for the two others. -/
def Field.Takes : Field → Scalar → Prop
  | .enable, v => ∃ b, v = .boolean b
  | .threads, v => v.IsWord
  | .timeout, v => v.IsWord

/-- What an entry expects. -/
def Field.expected : Field → Expected
  | .enable => .boolean
  | .threads => .threads
  | .timeout => .seconds

/-- Why an entry refuses a scalar that it does not take.  Where a word is expected, a negative number of 64 bits has
the right type and the wrong value. -/
def Field.refusal : Field → Scalar → Refusal
  | .enable, v => .wrongType v.found .boolean
  | field, .integer n =>
    if -2 ^ 63 ≤ n ∧ n < 0 then .wrongValue (.integer n) field.expected
    else .wrongType (Scalar.integer n).found field.expected
  | field, v => .wrongType v.found field.expected

/-- Settings that make up a configuration. -/
structure Acceptable (ms : List Setting) : Prop where
  distinct : (ms.map Setting.name).Nodup
  fits : ∀ m ∈ ms, ∃ field : Field, field.name = m.name ∧ field.Takes m.value

/-- Each entry has the scalar that is given for it, or its default when none is given. -/
structure Overridden (ms : List Setting) (c : Config) : Prop where
  given : ∀ m ∈ ms, ∀ field : Field, field.name = m.name → c.value field = m.value
  absent : ∀ field : Field, field.name ∉ ms.map Setting.name → c.value field = Config.standard.value field

/-- A name that may not stand behind the settings before it, with the cause. -/
inductive Misnamed (before : List Setting) (name : String) : Refusal → Prop where
  | unknown : (∀ field : Field, field.name ≠ name) → Misnamed before name (.unknownField name)
  | repeated {field : Field} : field.name = name → name ∈ before.map Setting.name →
      Misnamed before name (.duplicateField field)

/-- A setting that does not fit those before it, with the cause: its name does not, or its name does and its scalar
does not. -/
inductive Offends (before : List Setting) (m : Setting) : Refusal → Prop where
  | name {cause : Refusal} : Misnamed before m.name cause → Offends before m cause
  | value {field : Field} : field.name = m.name → m.name ∉ before.map Setting.name → ¬ field.Takes m.value →
      Offends before m (field.refusal m.value)

/-! ## Entries and their names -/

theorem Field.mem_all (field : Field) : field ∈ Field.all := by
  cases field <;> decide

theorem Field.ofName?_name (field : Field) : Field.ofName? field.name = some field := by
  cases field <;> rfl

theorem Field.name_injective : Function.Injective Field.name := by
  intro field other h
  have hsame : some field = some other := by rw [← Field.ofName?_name field, h, Field.ofName?_name other]
  exact Option.some.inj hsame

theorem Field.ofName?_eq_none {name : String} (h : ∀ field : Field, field.name ≠ name) :
    Field.ofName? name = none := by
  refine List.find?_eq_none.mpr ?_
  intro field _ hname
  exact h field (eq_of_beq hname)

/-- The value of an entry as far as it has been read. -/
def Entries.value? (e : Entries) : Field → Option Scalar
  | .enable => e.enable.map .boolean
  | .threads => e.threads.map fun n => .integer n.toNat
  | .timeout => e.timeout.map fun n => .integer n.toNat

theorem Entries.has_eq (e : Entries) (field : Field) : e.has field = (e.value? field).isSome := by
  cases field with
  | enable => exact (Option.isSome_map ..).symm
  | threads => exact (Option.isSome_map ..).symm
  | timeout => exact (Option.isSome_map ..).symm

/-- Entries that have not been read keep their defaults. -/
theorem Entries.toConfig_value (e : Entries) (field : Field) :
    e.toConfig.value field = (e.value? field).getD (Config.standard.value field) := by
  obtain ⟨enable, threads, timeout⟩ := e
  cases field with
  | enable => cases enable <;> rfl
  | threads => cases threads <;> rfl
  | timeout => cases timeout <;> rfl

theorem Entries.value?_none (field : Field) : Entries.none.value? field = Option.none := by
  cases field <;> rfl

theorem Config.eq_of_value {c c' : Config} (h : ∀ field, c.value field = c'.value field) : c = c' := by
  obtain ⟨enable, threads, timeout⟩ := c
  obtain ⟨enable', threads', timeout'⟩ := c'
  have henable : enable = enable' := Scalar.boolean.inj (h .enable)
  have hthreads : (threads.toNat : Int) = threads'.toNat := Scalar.integer.inj (h .threads)
  have htimeout : (timeout.toNat : Int) = timeout'.toNat := Scalar.integer.inj (h .timeout)
  rw [Config.mk.injEq]
  exact ⟨henable, UInt64.toNat_inj.mp (by omega), UInt64.toNat_inj.mp (by omega)⟩

/-! ## One scalar for one entry -/

/-- A word is taken as it is. -/
theorem asWord_of_isWord {v : Scalar} (h : v.IsWord) (expected : Expected) :
    ∃ n : UInt64, v.asWord expected = .ok n ∧ v = .integer n.toNat := by
  obtain ⟨n, rfl, hnonneg, hlt⟩ := h
  have hlimit := significandLimit_eq
  refine ⟨UInt64.ofNat n.toNat, ?_, ?_⟩
  · rw [Scalar.asWord, if_pos ⟨hnonneg, by omega⟩]
  · rw [UInt64.toNat_ofNat_of_lt' (by simp only [UInt64.size]; omega), Int.toNat_of_nonneg hnonneg]

/-- Anything else is refused for its type, or for its value if it is a negative number. -/
theorem asWord_of_not_isWord {v : Scalar} (h : ¬ v.IsWord) (field : Field) (hfield : field ≠ .enable) :
    v.asWord field.expected = .error (field.refusal v) := by
  cases field with
  | enable => exact absurd rfl hfield
  | threads | timeout =>
    cases v with
    | null | boolean | text => rfl
    | integer n =>
      have hlimit := significandLimit_eq
      have hout : ¬ (0 ≤ n ∧ n ≤ significandLimit) := fun hn => h ⟨n, rfl, hn.1, by omega⟩
      rw [Scalar.asWord, if_neg hout, Field.refusal]
      · by_cases hnegative : -2 ^ 63 ≤ n ∧ n < 0
        · rw [if_pos (by omega), if_pos hnegative]
        · rw [if_neg (by omega), if_neg hnegative]
      · exact hfield

/-- A scalar that an entry takes is entered for it, and no other entry changes. -/
theorem put_of_takes {field : Field} {v : Scalar} (h : field.Takes v) (e : Entries) :
    ∃ e', e.put field v = .ok e' ∧ e'.value? field = some v ∧
      ∀ other, other ≠ field → e'.value? other = e.value? other := by
  cases field with
  | enable =>
    obtain ⟨b, rfl⟩ := h
    refine ⟨_, rfl, rfl, fun other hother => ?_⟩
    cases other with
    | enable => exact absurd rfl hother
    | threads => rfl
    | timeout => rfl
  | threads =>
    obtain ⟨n, hword, rfl⟩ := asWord_of_isWord h .threads
    refine ⟨{ e with threads := some n }, ?_, rfl, fun other hother => ?_⟩
    · rw [Entries.put, hword]
      rfl
    · cases other with
      | enable => rfl
      | threads => exact absurd rfl hother
      | timeout => rfl
  | timeout =>
    obtain ⟨n, hword, rfl⟩ := asWord_of_isWord h .seconds
    refine ⟨{ e with timeout := some n }, ?_, rfl, fun other hother => ?_⟩
    · rw [Entries.put, hword]
      rfl
    · cases other with
      | enable => rfl
      | threads => rfl
      | timeout => exact absurd rfl hother

theorem put_of_not_takes {field : Field} {v : Scalar} (h : ¬ field.Takes v) (e : Entries) :
    e.put field v = .error (field.refusal v) := by
  cases field with
  | enable =>
    cases v with
    | boolean b => exact absurd ⟨b, rfl⟩ h
    | null | text | integer => rfl
  | threads =>
    have hword : v.asWord .threads = .error (Field.threads.refusal v) :=
      asWord_of_not_isWord h .threads (by decide)
    rw [Entries.put, hword]
    rfl
  | timeout =>
    have hword : v.asWord .seconds = .error (Field.timeout.refusal v) :=
      asWord_of_not_isWord h .timeout (by decide)
    rw [Entries.put, hword]
    rfl

theorem isWord_toNat (n : UInt64) : (Scalar.integer n.toNat).IsWord := by
  have hlt := n.toNat_lt
  exact ⟨n.toNat, rfl, by omega, by omega⟩

/-- An entry takes the value that a configuration has for it. -/
theorem Config.takes_value (c : Config) (field : Field) : field.Takes (c.value field) := by
  cases field with
  | enable => exact ⟨c.enable, rfl⟩
  | threads => exact isWord_toNat c.threads
  | timeout => exact isWord_toNat c.timeoutSeconds

/-- What an entry takes has a text. -/
theorem Field.Takes.short {field : Field} {v : Scalar} (h : field.Takes v) : v.Short := by
  have hword : v.IsWord → v.Short := by
    rintro ⟨n, rfl, hnonneg, hlt⟩
    have htwenty : (Nat.toDigits 10 n.natAbs).length ≤ 20 :=
      (Nat.length_toDigits_le_iff (by decide) (by decide)).mpr (by omega)
    exact htwenty.trans (by decide)
  cases field with
  | enable =>
    obtain ⟨b, rfl⟩ := h
    exact trivial
  | threads => exact hword h
  | timeout => exact hword h

/-! ## One more setting -/

/-- What has been read once some settings have been taken. -/
structure Entries.Holds (e : Entries) (before : List Setting) : Prop where
  given : ∀ m ∈ before, ∀ field : Field, field.name = m.name → e.value? field = some m.value
  absent : ∀ field : Field, field.name ∉ before.map Setting.name → e.value? field = Option.none

theorem Entries.holds_nil : Entries.none.Holds [] :=
  ⟨fun _ hm => absurd hm List.not_mem_nil, fun field _ => Entries.value?_none field⟩

namespace Entries.Holds

variable {e : Entries} {before : List Setting}

theorem overridden (h : e.Holds before) : Overridden before e.toConfig := by
  constructor
  · intro m hm field hname
    rw [Entries.toConfig_value, h.given m hm field hname, Option.getD_some]
  · intro field hname
    rw [Entries.toConfig_value, h.absent field hname, Option.getD_none]

theorem has_of_mem (h : e.Holds before) {field : Field} (hname : field.name ∈ before.map Setting.name) :
    e.has field = true := by
  obtain ⟨m, hm, heq⟩ := List.mem_map.mp hname
  rw [Entries.has_eq, h.given m hm field heq.symm, Option.isSome_some]

theorem has_of_not_mem (h : e.Holds before) {field : Field} (hname : field.name ∉ before.map Setting.name) :
    e.has field = false := by
  rw [Entries.has_eq, h.absent field hname, Option.isSome_none]

/-- A misnamed setting is refused as it stands. -/
theorem refusesName (h : e.Holds before) {name : String} {cause : Refusal} (hname : Misnamed before name cause) :
    e.RefusesName name cause := by
  cases hname with
  | unknown hunknown => exact .inl ⟨Field.ofName?_eq_none hunknown, rfl⟩
  | repeated hfield hmem =>
    subst hfield
    exact .inr ⟨_, Field.ofName?_name _, h.has_of_mem hmem, rfl⟩

/-- A name that has not been given yet and a scalar that its entry takes: one more entry is read. -/
theorem take_fits (h : e.Holds before) {m : Setting} {field : Field} (hname : field.name = m.name)
    (hnew : m.name ∉ before.map Setting.name) (htakes : field.Takes m.value) :
    ∃ e', e.take m = .ok e' ∧ e'.Holds (before ++ [m]) := by
  obtain ⟨e', hput, hfield, hothers⟩ := put_of_takes htakes e
  refine ⟨e', ?_, ?_, ?_⟩
  · rw [Entries.take, ← hname, Field.ofName?_name]
    dsimp only
    rw [h.has_of_not_mem (hname ▸ hnew), if_neg Bool.false_ne_true, hput]
  · intro m' hm' other hother
    rcases List.mem_append.mp hm' with hold | hlast
    · have hne : other ≠ field := by
        rintro rfl
        exact hnew (hname ▸ hother ▸ List.mem_map_of_mem hold)
      rw [hothers other hne, h.given m' hold other hother]
    · cases List.mem_singleton.mp hlast
      rw [Field.name_injective (hother.trans hname.symm), hfield]
  · intro other hother
    rw [List.map_append, List.mem_append, not_or] at hother
    have hne : other ≠ field := by
      rintro rfl
      exact hother.2 (List.mem_singleton.mpr hname)
    rw [hothers other hne, h.absent other hother.1]

/-- A setting that offends is refused, with its cause. -/
theorem take_offends (h : e.Holds before) {m : Setting} {cause : Refusal} (hm : Offends before m cause) :
    e.take m = .error cause := by
  cases hm with
  | name hname =>
    rcases h.refusesName hname with ⟨hnone, rfl⟩ | ⟨field, hsome, hhas, rfl⟩
    · rw [Entries.take, hnone]
    · rw [Entries.take, hsome]
      exact if_pos hhas
  | value hname hnew htakes =>
    rw [Entries.take, ← hname, Field.ofName?_name]
    dsimp only
    rw [h.has_of_not_mem (hname ▸ hnew), if_neg Bool.false_ne_true, put_of_not_takes htakes]

end Entries.Holds

/-! ## All settings -/

theorem acceptable_nil : Acceptable [] := ⟨List.nodup_nil, fun _ hm => absurd hm List.not_mem_nil⟩

theorem acceptable_append_singleton {before : List Setting} {m : Setting} :
    Acceptable (before ++ [m]) ↔ Acceptable before ∧ m.name ∉ before.map Setting.name ∧
      ∃ field : Field, field.name = m.name ∧ field.Takes m.value := by
  constructor
  · intro h
    have hdistinct := h.distinct
    rw [List.map_append, List.map_singleton, List.nodup_append] at hdistinct
    refine ⟨⟨hdistinct.1, fun m' hm' => h.fits m' (List.mem_append_left _ hm')⟩, ?_, ?_⟩
    · exact fun hmem => hdistinct.2.2 _ hmem _ (List.mem_singleton_self _) rfl
    · exact h.fits m (List.mem_append_right _ (List.mem_singleton_self m))
  · rintro ⟨hbefore, hnew, hfits⟩
    constructor
    · rw [List.map_append, List.map_singleton, List.nodup_append]
      refine ⟨hbefore.distinct, List.nodup_singleton _, ?_⟩
      intro name hname name' hname' heq
      rw [heq, List.mem_singleton.mp hname'] at hname
      exact hnew hname
    · intro m' hm'
      rcases List.mem_append.mp hm' with hold | hlast
      · exact hbefore.fits m' hold
      · cases List.mem_singleton.mp hlast
        exact hfits

/-- Settings after others are taken in their turn. -/
theorem takeAll_append {e e' : Entries} {ms : List Setting} (h : e.takeAll ms = .ok e') (more : List Setting) :
    e.takeAll (ms ++ more) = e'.takeAll more := by
  induction ms generalizing e with
  | nil =>
    cases h
    rfl
  | cons m ms ih =>
    rw [Entries.takeAll] at h
    rw [List.cons_append, Entries.takeAll]
    cases htake : e.take m with
    | error cause =>
      rw [htake] at h
      cases h
    | ok e₁ =>
      rw [htake] at h
      exact ih h

theorem takeAll_singleton (e : Entries) (m : Setting) : e.takeAll [m] = e.take m := by
  rw [Entries.takeAll]
  cases e.take m <;> rfl

/-- Acceptable settings are all taken. -/
theorem takeAll_acceptable {ms : List Setting} (h : Acceptable ms) :
    ∃ e, Entries.none.takeAll ms = .ok e ∧ e.Holds ms := by
  induction ms using List.reverseRecOn with
  | nil => exact ⟨_, rfl, Entries.holds_nil⟩
  | append_singleton before m ih =>
    obtain ⟨hbefore, hnew, field, hname, htakes⟩ := acceptable_append_singleton.mp h
    obtain ⟨e, htaken, hholds⟩ := ih hbefore
    obtain ⟨e', htake, hholds'⟩ := hholds.take_fits hname hnew htakes
    refine ⟨e', ?_, hholds'⟩
    rw [takeAll_append htaken, takeAll_singleton, htake]

/-- The first offence is reported. -/
theorem takeAll_offence {before after : List Setting} {m : Setting} {cause : Refusal} (h : Acceptable before)
    (hm : Offends before m cause) : Entries.none.takeAll (before ++ m :: after) = .error cause := by
  obtain ⟨e, htaken, hholds⟩ := takeAll_acceptable h
  rw [takeAll_append htaken, Entries.takeAll, hholds.take_offends hm]

/-- A setting fits those before it or offends. -/
theorem fits_or_offends (before : List Setting) (m : Setting) :
    (m.name ∉ before.map Setting.name ∧ ∃ field : Field, field.name = m.name ∧ field.Takes m.value) ∨
      ∃ cause, Offends before m cause := by
  by_cases hknown : ∃ field : Field, field.name = m.name
  · obtain ⟨field, hname⟩ := hknown
    by_cases hmem : m.name ∈ before.map Setting.name
    · exact .inr ⟨_, .name (.repeated hname hmem)⟩
    · by_cases htakes : field.Takes m.value
      · exact .inl ⟨hmem, field, hname, htakes⟩
      · exact .inr ⟨_, .value hname hmem htakes⟩
  · exact .inr ⟨_, .name (.unknown fun field hname => hknown ⟨field, hname⟩)⟩

/-- Among settings that are not acceptable there is a first that offends. -/
theorem exists_offence {ms : List Setting} (h : ¬ Acceptable ms) :
    ∃ before m after cause, ms = before ++ m :: after ∧ Acceptable before ∧ Offends before m cause := by
  induction ms using List.reverseRecOn with
  | nil => exact absurd acceptable_nil h
  | append_singleton init last ih =>
    by_cases hinit : Acceptable init
    · rcases fits_or_offends init last with hfits | ⟨cause, hoffends⟩
      · exact absurd (acceptable_append_singleton.mpr ⟨hinit, hfits⟩) h
      · exact ⟨init, last, [], cause, rfl, hinit, hoffends⟩
    · obtain ⟨before, m, after, cause, rfl, hbefore, hoffends⟩ := ih hinit
      exact ⟨before, m, after ++ [last], cause, by rw [List.append_assoc, List.cons_append], hbefore, hoffends⟩

/-! ## Order -/

theorem Acceptable.perm {ms ms' : List Setting} (h : Acceptable ms) (hperm : ms.Perm ms') : Acceptable ms' :=
  ⟨(hperm.map _).nodup_iff.mp h.distinct, fun m hm => h.fits m (hperm.mem_iff.mpr hm)⟩

theorem Overridden.perm {ms ms' : List Setting} {c : Config} (h : Overridden ms c) (hperm : ms.Perm ms') :
    Overridden ms' c :=
  ⟨fun m hm => h.given m (hperm.mem_iff.mpr hm), fun field hname =>
    h.absent field fun hmem => hname ((hperm.map _).mem_iff.mp hmem)⟩

/-- Settings leave no choice for a configuration. -/
theorem Overridden.unique {ms : List Setting} {c c' : Config} (h : Overridden ms c) (h' : Overridden ms c') :
    c = c' := by
  refine Config.eq_of_value fun field => ?_
  by_cases hmem : field.name ∈ ms.map Setting.name
  · obtain ⟨m, hm, heq⟩ := List.mem_map.mp hmem
    rw [h.given m hm field heq.symm, h'.given m hm field heq.symm]
  · rw [h.absent field hmem, h'.absent field hmem]

/-! ## Texts that break off -/

/-- The settings behind some others, up to one of them. -/
theorem Listed.split {before after : List Setting} {m : Setting} {ts : List Char}
    (h : Listed (before ++ m :: after) ts) : ∃ ts' b b' t rest, ts = ts' ++ (b ++ ',' :: (b' ++ (t ++ rest))) ∧
      Listed before ts' ∧ Blanks b ∧ Blanks b' ∧ m.Written t := by
  induction before generalizing ts with
  | nil =>
    cases h with
    | cons hb hb' hm _ => exact ⟨[], _, _, _, _, rfl, .nil, hb, hb', hm⟩
  | cons first before ih =>
    cases h with
    | cons hb hb' hfirst hms =>
      obtain ⟨ts', c, c', t', rest, rfl, hbefore, hc, hc', hm⟩ := ih hms
      refine ⟨_, c, c', t', rest, ?_, .cons hb hb' hfirst hbefore, hc, hc', hm⟩
      simp only [List.append_assoc, List.cons_append]

theorem Setting.Written.inQuotes {m : Setting} {t : List Char} (h : m.Written t) :
    ∃ q rest, t = q ++ rest ∧ InQuotes m.name q := by
  cases h with
  | mk hq _ _ _ => exact ⟨_, _, rfl, hq⟩

/-- The text of a list of settings, broken off behind the name of one of them. -/
theorem Document.begun {before after : List Setting} {m : Setting} {t : List Char}
    (h : Document (before ++ m :: after) t) : ∃ head rest, t = head ++ rest ∧ Begun before m.name head := by
  cases before with
  | nil =>
    cases h with
    | @filled _ _ a b t ts c d ha hb hm _ _ _ =>
      obtain ⟨q, rest, rfl, hq⟩ := hm.inQuotes
      refine ⟨_, rest ++ (ts ++ (c ++ '\x7d' :: d)), ?_, .first ha hb hq⟩
      simp only [List.append_assoc, List.cons_append]
  | cons first before =>
    cases h with
    | @filled _ _ a b t ts c' d' ha hb hfirst hms _ _ =>
      obtain ⟨ts', c, d, t', more, rfl, hbefore, hc, hd, hm⟩ := Listed.split hms
      obtain ⟨q, rest, rfl, hq⟩ := hm.inQuotes
      refine ⟨_, rest ++ (more ++ (c' ++ '\x7d' :: d')), ?_, .later ha hb hfirst hbefore hc hd hq⟩
      simp only [List.append_assoc, List.cons_append]

/-! ## Reading -/

theorem parse_document {ms : List Setting} {text : String} (h : Document ms text.toList) :
    Config.parse text = match Entries.none.takeAll ms with
      | .error cause => .error (.refused cause)
      | .ok e => .ok e.toConfig := ofChars_document h

theorem parse_acceptable {ms : List Setting} {text : String} (h : Document ms text.toList) (hms : Acceptable ms) :
    ∃ c, Config.parse text = .ok c ∧ Overridden ms c := by
  obtain ⟨e, htaken, hholds⟩ := takeAll_acceptable hms
  refine ⟨e.toConfig, ?_, hholds.overridden⟩
  rw [parse_document h, htaken]

theorem parse_offence {before after : List Setting} {m : Setting} {cause : Refusal} {text : String}
    (h : Document (before ++ m :: after) text.toList) (hbefore : Acceptable before) (hm : Offends before m cause) :
    Config.parse text = .error (.refused cause) := by
  rw [parse_document h, takeAll_offence hbefore hm]

/-- Just the acceptable settings are read, and just as what they override. -/
theorem parse_eq_ok_iff {ms : List Setting} {text : String} (h : Document ms text.toList) (c : Config) :
    Config.parse text = .ok c ↔ Acceptable ms ∧ Overridden ms c := by
  by_cases hms : Acceptable ms
  · obtain ⟨c', hparse, hover⟩ := parse_acceptable h hms
    rw [hparse]
    constructor
    · intro heq
      cases heq
      exact ⟨hms, hover⟩
    · rintro ⟨-, hover'⟩
      rw [hover.unique hover']
  · obtain ⟨before, m, after, cause, rfl, hbefore, hoffends⟩ := exists_offence hms
    rw [parse_offence h hbefore hoffends]
    constructor
    · intro heq
      cases heq
    · rintro ⟨hacceptable, -⟩
      exact absurd hacceptable hms

/-- Every configuration is read from some text. -/
theorem Config.exists_text (c : Config) : ∃ text, Config.parse text = .ok c := by
  have hname : (Field.all.map fun field => Setting.mk field.name (c.value field)).map Setting.name =
      Field.all.map Field.name := List.map_map
  have hshort : ∀ m ∈ Field.all.map fun field => Setting.mk field.name (c.value field), m.value.Short := by
    intro m hm
    obtain ⟨field, -, rfl⟩ := List.mem_map.mp hm
    exact (c.takes_value field).short
  obtain ⟨t, ht⟩ := exists_document hshort
  rw [← String.toList_ofList (l := t)] at ht
  refine ⟨String.ofList t, (parse_eq_ok_iff ht c).mpr ⟨⟨?_, ?_⟩, ?_, ?_⟩⟩
  · rw [hname]
    decide
  · intro m hm
    obtain ⟨field, -, rfl⟩ := List.mem_map.mp hm
    exact ⟨field, rfl, c.takes_value field⟩
  · intro m hm field heq
    obtain ⟨field', -, rfl⟩ := List.mem_map.mp hm
    rw [Field.name_injective heq]
  · intro field habsent
    rw [hname] at habsent
    exact absurd (List.mem_map_of_mem field.mem_all) habsent

/-- What comes of the text of a list of settings. -/
structure SettingsRead (ms : List Setting) (text : String) : Prop where
  /-- A configuration is read just if the settings make one up, and it is that one. -/
  accepted : ∀ c, Config.parse text = .ok c ↔ Acceptable ms ∧ Overridden ms c
  /-- Settings that make up a configuration are read. -/
  complete : Acceptable ms → ∃ c, Config.parse text = .ok c
  /-- The order does not matter for what is read. -/
  orderless : ∀ ms' text', ms.Perm ms' → Document ms' text'.toList → ∀ c,
    Config.parse text = .ok c ↔ Config.parse text' = .ok c
  /-- Settings that do not make up a configuration have a first that offends. -/
  offence : ¬ Acceptable ms →
    ∃ before m after cause, ms = before ++ m :: after ∧ Acceptable before ∧ Offends before m cause
  /-- The first that offends is reported. -/
  refused : ∀ before m after cause, ms = before ++ m :: after → Acceptable before → Offends before m cause →
    Config.parse text = .error (.refused cause)
  /-- If its name offends then whatever stands behind the name is not looked at. -/
  unseen : ∀ before m after cause, ms = before ++ m :: after → Acceptable before → Misnamed before m.name cause →
    ∃ head rest, text.toList = head ++ rest ∧ Begun before m.name head ∧
      ∀ rest', Config.ofChars (head ++ rest') = .error (.refused cause)

/-- Reading the text of a list of settings. -/
theorem parse_settings {ms : List Setting} {text : String} (h : Document ms text.toList) : SettingsRead ms text where
  accepted := parse_eq_ok_iff h
  complete := fun hms => (parse_acceptable h hms).imp fun _ => And.left
  orderless := by
    intro ms' text' hperm h' c
    rw [parse_eq_ok_iff h, parse_eq_ok_iff h']
    exact ⟨fun hc => ⟨hc.1.perm hperm, hc.2.perm hperm⟩, fun hc => ⟨hc.1.perm hperm.symm, hc.2.perm hperm.symm⟩⟩
  offence := exists_offence
  refused := by
    rintro before m after cause rfl hbefore hoffends
    exact parse_offence h hbefore hoffends
  unseen := by
    rintro before m after cause rfl hbefore hname
    obtain ⟨e, htaken, hholds⟩ := takeAll_acceptable hbefore
    obtain ⟨head, rest, htext, hbegun⟩ := h.begun
    exact ⟨head, rest, htext, hbegun, ofChars_begun hbegun htaken (hholds.refusesName hname)⟩

/-- A name whose first character is given by its code, blanks, and a negative number before a name that is given for
the second time. -/
theorem parse_settings_negative :
    Document [⟨"enable", .boolean false⟩, ⟨"executor-thread-count", .integer (-5)⟩, ⟨"enable", .null⟩]
      "\x7b \"\\u0065nable\" : false ,\n\"executor-thread-count\":-5,\"enable\":null\x7d".toList ∧
    Config.parse "\x7b \"\\u0065nable\" : false ,\n\"executor-thread-count\":-5,\"enable\":null\x7d" =
      .error (.refused (.wrongValue (.integer (-5)) .threads)) := by
  have hspace : Blanks [' '] := blanks_of_all rfl
  have hbreak : Blanks ['\n'] := blanks_of_all rfl
  have hcode : FourDigits 'e'.toNat ['0', '0', '6', '5'] :=
    .mk (w := 0) (x := 0) (y := 6) (z := 5) rfl rfl rfl rfl
  have hspelled : Spelled "enable".toList "\\u0065nable".toList :=
    .cons (.coded hcode) (spelled_self (show "nable".toList.all isPlain = true from rfl))
  have hplain : Spelled "enable".toList "enable".toList := spelled_self rfl
  have hthreads : Spelled "executor-thread-count".toList "executor-thread-count".toList := spelled_self rfl
  have hnumber : (Scalar.integer (-5)).Written ['-', '5'] := .negative (by decide) (by decide)
  have hdocument : Document
      [⟨"enable", .boolean false⟩, ⟨"executor-thread-count", .integer (-5)⟩, ⟨"enable", .null⟩]
      "\x7b \"\\u0065nable\" : false ,\n\"executor-thread-count\":-5,\"enable\":null\x7d".toList :=
    .filled blanks_nil hspace (.mk (.mk hspelled) hspace hspace .no)
      (.cons hspace hbreak (.mk (.mk hthreads) blanks_nil blanks_nil hnumber)
        (.cons blanks_nil blanks_nil (.mk (.mk hplain) blanks_nil blanks_nil .null) .nil))
      blanks_nil blanks_nil
  have hbefore : Acceptable [⟨"enable", .boolean false⟩] :=
    acceptable_append_singleton.mpr ⟨acceptable_nil, List.not_mem_nil, .enable, rfl, false, rfl⟩
  have hnotWord : ¬ Field.threads.Takes (.integer (-5)) := by
    rintro ⟨n, heq, hnonneg, -⟩
    cases heq
    exact absurd hnonneg (by decide)
  have hoffends : Offends [⟨"enable", .boolean false⟩] ⟨"executor-thread-count", .integer (-5)⟩
      (.wrongValue (.integer (-5)) .threads) := @Offends.value _ _ .threads rfl (by decide) hnotWord
  exact ⟨hdocument, (parse_settings hdocument).refused _ _ _ _ rfl hbefore hoffends⟩

end GridTick
