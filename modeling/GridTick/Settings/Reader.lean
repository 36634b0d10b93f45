import GridTick.Settings.Scalar
import GridTick.Settings.Config

/-!
# GridTick.Settings.Reader — reading a configuration text

A configuration is a map from entry names to values, or a sequence of at most three values in the order of the
entries.  Entries that are absent keep their defaults.  An unknown or repeated name is refused before its value is
looked at, and the first problem in reading order is the one reported.

* `Entries`: the entries read so far.
* `members`, `items`: the inside of a map and of a sequence.
* `Config.parse`: a whole text.
-/

namespace GridTick

structure Entries where
  enable : Option Bool
  threads : Option UInt64
  timeout : Option UInt64
deriving DecidableEq, Repr

namespace Entries

/-- No entry read. -/
def none : Entries := ⟨.none, .none, .none⟩

/-- Whether an entry has been read. -/
def has (e : Entries) : Field → Bool
  | .enable => e.enable.isSome
  | .threads => e.threads.isSome
  | .timeout => e.timeout.isSome

/-- The configuration in which absent entries keep their defaults. -/
def toConfig (e : Entries) : Config :=
  ⟨e.enable.getD Config.standard.enable, e.threads.getD Config.standard.threads,
    e.timeout.getD Config.standard.timeoutSeconds⟩

/-- Read the value of an entry. -/
def readValue (e : Entries) (field : Field) (s : List Char) : Read Entries :=
  match field with
  | .enable => (boolean s).map fun (v, rest) => ({ e with enable := some v }, rest)
  | .threads => (natural .threads s).map fun (v, rest) => ({ e with threads := some v }, rest)
  | .timeout => (natural .seconds s).map fun (v, rest) => ({ e with timeout := some v }, rest)

end Entries

/-- The colon between a name and its value. -/
def colon (s : List Char) : Except Problem (List Char) :=
  match skipBlank s with
  | [] => .error .truncated
  | ':' :: rest => .ok rest
  | _ :: _ => .error .malformed

/-- One member of a map, past the quotation mark that opens its name. -/
def member (e : Entries) (s : List Char) : Read Entries :=
  match quotedText [] s with
  | .error problem => .error problem
  | .ok (name, rest) =>
    match Field.ofName? name with
    | .none => .error (.refused (.unknownField name))
    | some field =>
      if e.has field then .error (.refused (.duplicateField field))
      else
        match colon rest with
        | .error problem => .error problem
        | .ok rest => e.readValue field rest

/-- The quotation mark that opens the name of the member after a comma. -/
def nextName (s : List Char) : Except Problem (List Char) :=
  match skipBlank s with
  | [] => .error .truncated
  | '"' :: rest => .ok rest
  | _ :: _ => .error .malformed

/-- The members of a map behind its first one, at most `fuel` of them. -/
def moreMembers (fuel : Nat) (e : Entries) (s : List Char) : Read Entries :=
  match fuel with
  | 0 => .error .truncated
  | fuel + 1 =>
    match skipBlank s with
    | [] => .error .truncated
    | '\x7d' :: rest => .ok (e, rest)
    | ',' :: rest =>
      match nextName rest with
      | .error problem => .error problem
      | .ok rest =>
        match member e rest with
        | .error problem => .error problem
        | .ok (e, rest) => moreMembers fuel e rest
    | _ :: _ => .error .malformed

/-- The members of a map, past its opening brace.  A map holds fewer members than characters. -/
def members (s : List Char) : Read Entries :=
  match skipBlank s with
  | [] => .error .truncated
  | '\x7d' :: rest => .ok (Entries.none, rest)
  | '"' :: rest =>
    match member Entries.none rest with
    | .error problem => .error problem
    | .ok (e, rest) => moreMembers (s.length + 1) e rest
  | _ :: _ => .error .malformed

/-- What stands before the next item of a sequence: its end, or a comma that an item must follow. -/
def nextItem (s : List Char) : Except Problem (Option (List Char)) :=
  match skipBlank s with
  | [] => .error .truncated
  | ']' :: _ => .ok .none
  | ',' :: rest =>
    match skipBlank rest with
    | [] => .error .truncated
    | ']' :: _ => .error .malformed
    | rest => .ok (some rest)
  | _ :: _ => .error .malformed

/-- The end of a sequence. -/
def endOfItems (e : Entries) (s : List Char) : Read Entries :=
  match skipBlank s with
  | [] => .error .truncated
  | ']' :: rest => .ok (e, rest)
  | _ :: _ => .error .malformed

/-- The items of a sequence behind its first one, for the entries still to be read. -/
def moreItems (e : Entries) : List Field → List Char → Read Entries
  | [], s => endOfItems e s
  | field :: fields, s =>
    match nextItem s with
    | .error problem => .error problem
    | .ok .none => endOfItems e s
    | .ok (some rest) =>
      match e.readValue field rest with
      | .error problem => .error problem
      | .ok (e, rest) => moreItems e fields rest

/-- The items of a sequence, past its opening bracket. -/
def items (s : List Char) : Read Entries :=
  match skipBlank s with
  | [] => .error .truncated
  | ']' :: rest => .ok (Entries.none, rest)
  | s =>
    match Entries.none.readValue .enable s with
    | .error problem => .error problem
    | .ok (e, rest) => moreItems e [.threads, .timeout] rest

/-- Nothing but blanks may follow the configuration. -/
def finished (c : Config) (s : List Char) : Except Problem Config :=
  match skipBlank s with
  | [] => .ok c
  | _ :: _ => .error .malformed

/-- The configuration that a list of characters describes. -/
def Config.ofChars (s : List Char) : Except Problem Config :=
  let read : Read Entries :=
    match skipBlank s with
    | '\x7b' :: rest => members rest
    | '[' :: rest => items rest
    | s => .error (wrongKind .config s)
  match read with
  | .error problem => .error problem
  | .ok (e, rest) => finished e.toConfig rest

def Config.parse (text : String) : Except Problem Config := Config.ofChars text.toList

end GridTick
