/-
# ChapterCheck.Options.Reader -- options from bytes

Options are read from an object with the fields of `Options`, each at most once and in any order, or
from a list of their values in the order of the structure, from which later ones may be left out. A
setting that is not given keeps its default.

Everything is looked at where it stands: a name when it has been read, a value when it is met. The
fault that is told is thus the first one in the order of the text, whether it is a fault of the text
or of the settings.
-/
import ChapterCheck.Json.Printer
import ChapterCheck.Json.Reader
import ChapterCheck.Options
import ChapterCheck.Text.Literal

namespace ChapterCheck.Options

open Json

/-! ## Values of a known type -/

/-- **`describe`** -- what a value is, in a message about its type. -/
def describe : Value → String
  | .null => "null"
  | .bool true => "boolean `true`"
  | .bool false => "boolean `false`"
  | .number (.integer n) => "integer `" ++ integerText n ++ "`"
  | .number (.decimal x) => "floating point `" ++ decimalText x ++ "`"
  | .string s => "string " ++ Text.literal s
  | .array _ => "sequence"
  | .object _ => "map"

/-- The byte that a fault of the type of a value is about. A number is over only when the next byte
has been looked at. -/
def typeMark : Value → Mark
  | .number _ => .looked
  | _ => .last

/-- **`refusal`** -- why there is no value of the expected type at the front of `s`. It has to be a
value for its type to matter; lists and objects are told by their bracket and not read. -/
def refusal (expected : String) (s : List UInt8) : Fault :=
  match (skipBlanks s).head?.bind lead? with
  | some .list => .next (.wrongType (describe (.array [])) expected) (skipBlanks s)
  | some .object => .next (.wrongType (describe (.object [])) expected) (skipBlanks s)
  | _ =>
    match (readWith .stream none).scan s with
    | .error fault => fault
    | .ok t => ⟨.wrongType (describe t.value) expected, t.rest.length, typeMark t.value⟩

/-- A text. -/
def readText : Reader String where
  scan s :=
    match skipBlanks s with
    | [] => .error (refusal "a string" s)
    | b :: r =>
      match lead? b with
      | some .text => readQuoted.scan r
      | _ => .error (refusal "a string" s)
  shortens := by
    intro s t h
    split at h
    · cases h
    · rename_i b r hb
      split at h
      · exact Nat.lt_trans (readQuoted.shortens h) (length_lt_of_skipBlanks hb)
      · cases h

/-- A word of 64 bits. An integer that is not negative has been read as one only if it fits. -/
def readWord : Reader UInt64 where
  scan s :=
    match skipBlanks s with
    | [] => .error (refusal "usize" s)
    | b :: r =>
      match lead? b with
      | some .number => do
        let t ← Number.read.scan (b :: r)
        match t.value with
        | .integer n =>
          if 0 ≤ n then return ⟨UInt64.ofNat n.toNat, t.rest⟩
          else throw (.looked (.wrongValue (describe (.number t.value)) "usize") t.rest)
        | .decimal _ =>
          throw (.looked (.wrongType (describe (.number t.value)) "usize") t.rest)
      | _ => .error (refusal "usize" s)
  shortens := by
    intro s t h
    have hs := length_skipBlanks_le s
    split at h
    · cases h
    · rename_i b r hb
      rw [hb] at hs
      split at h
      · obtain ⟨n, hn, h⟩ := bind_eq_ok.mp h
        split at h
        · split at h <;> cases h
          exact Nat.lt_of_lt_of_le (Number.read.shortens hn) hs
        · cases h
      · cases h

/-! ## Settings by name -/

/-- A **`Setting`** -- one field with its value. -/
inductive Setting where
  | version (text : String)
  | depth (limit : UInt64)
  deriving DecidableEq, Repr

/-- Options with one setting changed. -/
def set (o : Options) : Setting → Options
  | .version text => { o with schemaVersion := text }
  | .depth limit => { o with maxDepth := limit }

/-- **`overlay`** -- the defaults with settings put over them. -/
def overlay (settings : List (String × Setting)) : Options :=
  settings.foldl (fun o (_, setting) => o.set setting) standard

/-- The names of the fields, in a message. -/
def knownFields : String :=
  "`" ++ versionField ++ "` or `" ++ depthField ++ "`"

/-- A member of an object of settings, from behind its name: the name has to be known and new, then
the value is read. A fault of the name is told at the next byte that is not blank. -/
def readSetting (seen : List (String × Setting)) (name : String) : Reader Setting where
  scan s :=
    if name ≠ versionField ∧ name ≠ depthField then
      .error (.next (.unknownField name knownFields) (skipBlanks s))
    else if seen.any (·.1 == name) then .error (.next (.duplicateField name) (skipBlanks s))
    else if name = versionField then ((afterColon readText).scan s).map (Taken.map .version)
    else ((afterColon readWord).scan s).map (Taken.map .depth)
  shortens := by
    intro s t h
    split at h
    · cases h
    · split at h
      · cases h
      · split at h
        · obtain ⟨text, ht, rfl⟩ := map_eq_ok.mp h
          exact (afterColon readText).shortens ht
        · obtain ⟨limit, hl, rfl⟩ := map_eq_ok.mp h
          exact (afterColon readWord).shortens hl

/-! ## Settings by place -/

/-- The end of a list of two settings. A comma may only be followed by nothing at all, so what
stands there is told as a comma too many if the list ends behind it, and as too much otherwise. -/
def endOfPair (s : List UInt8) : Except Fault (List UInt8) :=
  match skipBlanks s with
  | [] => .error (.next .endInList [])
  | b :: r =>
    if glyph b = ']' then .ok r
    else if glyph b = ',' then
      match skipBlanks r with
      | [] => .error (.next .trailingCharacters [])
      | c :: r' =>
        if glyph c = ']' then .error (.next .trailingComma (c :: r'))
        else .error (.next .trailingCharacters (c :: r'))
    else .error (.next .trailingCharacters (b :: r))

theorem length_endOfPair_le {s rest : List UInt8} (h : endOfPair s = .ok rest) :
    rest.length ≤ s.length := by
  unfold endOfPair at h
  split at h
  · cases h
  · rename_i b r hb
    split at h
    · cases h
      exact Nat.le_of_lt (length_lt_of_skipBlanks hb)
    · split at h
      · split at h
        · cases h
        · split at h <;> cases h
      · cases h

/-- A list of settings, from behind its bracket. -/
def readList : Scan Options := fun s => do
  match ← nextElement true s with
  | .closed rest => return ⟨standard, rest⟩
  | .entry rest =>
    let version ← readText.scan rest
    match ← nextElement false version.rest with
    | .closed rest => return ⟨{ schemaVersion := version.value }, rest⟩
    | .entry rest =>
      let limit ← readWord.scan rest
      let rest ← endOfPair limit.rest
      return ⟨⟨version.value, limit.value⟩, rest⟩

theorem length_readList_le {s : List UInt8} {t : Taken Options} (h : readList s = .ok t) :
    t.rest.length ≤ s.length := by
  obtain ⟨e, he, h⟩ := bind_eq_ok.mp h
  have hs := length_nextElement_le he
  split at h
  · cases h
    exact hs
  · obtain ⟨version, hv, h⟩ := bind_eq_ok.mp h
    obtain ⟨e', he', h⟩ := bind_eq_ok.mp h
    have hs := Nat.le_trans (Nat.le_of_lt (readText.shortens hv)) hs
    have hs := Nat.le_trans (length_nextElement_le he') hs
    split at h
    · cases h
      exact hs
    · obtain ⟨limit, hl, h⟩ := bind_eq_ok.mp h
      obtain ⟨rest, hr, h⟩ := bind_eq_ok.mp h
      cases h
      have hs := Nat.le_trans (Nat.le_of_lt (readWord.shortens hl)) hs
      exact Nat.le_trans (length_endOfPair_le hr) hs

/-! ## Options -/

/-- Options, as an object or as a list. -/
def read : Reader Options where
  scan s :=
    match skipBlanks s with
    | [] => .error (refusal "struct ValidatorOpts" s)
    | b :: r =>
      match lead? b with
      | some .object => (readMembers .stream readSetting true [] r).map (Taken.map overlay)
      | some .list => readList r
      | _ => .error (refusal "struct ValidatorOpts" s)
  shortens := by
    intro s t h
    split at h
    · cases h
    · rename_i b r hb
      have hr := length_lt_of_skipBlanks hb
      split at h
      · obtain ⟨settings, hm, rfl⟩ := map_eq_ok.mp h
        exact Nat.lt_of_le_of_lt (length_readMembers_le hm) hr
      · exact Nat.lt_of_le_of_lt (length_readList_le h) hr
      · cases h

/-- **`ofBytes`** -- the options that the bytes hold, and nothing but blanks around them. -/
def ofBytes (input : List UInt8) : Except Fault Options :=
  toEnd read input

/-- What is in front of the message where options could not be read. -/
def unreadable (message : String) : String :=
  "parse validator options JSON: " ++ message

end ChapterCheck.Options
