/-
# ChapterCheck.Proofs.ReadBack -- what is written over many lines is read back

A document without numbers in which every object has its keys in ascending order is `Regular` within
the room that its lists and objects need. It comes back when its pretty layout is read
(`Value.ofText_pretty`). Entries of lists and objects are written one after the other and read one
after the other, so there is one lemma for each of the two loops (`readElements_bracketed`,
`readMembers_bracketed`); both speak of any reader that takes what is written for an entry off the
front of its input (`Reader.Takes`).
-/
import Mathlib.Data.String.Basic
import ChapterCheck.Json.Printer
import ChapterCheck.Json.Quoted.RoundTrip
import ChapterCheck.Proofs.Sources

namespace ChapterCheck.Json

/-! ## Blanks -/

/-- Nothing but blanks. -/
def Blanks (s : List UInt8) : Prop :=
  ∀ b ∈ s, isBlank b = true

theorem skipBlanks_append {gap : List UInt8} (h : Blanks gap) (s : List UInt8) :
    skipBlanks (gap ++ s) = skipBlanks s :=
  List.dropWhile_append_of_pos h

theorem skipBlanks_cons {b : UInt8} (h : isBlank b = false) (r : List UInt8) :
    skipBlanks (b :: r) = b :: r :=
  List.dropWhile_cons_of_neg (by rw [h]; decide)

theorem blanks_nil : Blanks (Utf8.bytes "") :=
  nofun

theorem blanks_newline : Blanks (Utf8.bytes "\n") := by
  have hbytes : Utf8.bytes "\n" = [0x0A] := by decide
  rw [hbytes]
  exact List.forall_mem_singleton.mpr (by decide)

theorem blanks_lineAt (level : Nat) : Blanks (Utf8.bytes (lineAt level)) := by
  intro b hb
  rw [lineAt, Utf8.bytes, String.toList_ofList, Utf8.encode, List.mem_flatMap] at hb
  obtain ⟨c, hc, hb⟩ := hb
  have hnewline : String.utf8EncodeChar '\n' = [0x0A] := by decide
  have hspace : String.utf8EncodeChar ' ' = [0x20] := by decide
  rcases List.mem_cons.mp hc with rfl | hc
  · obtain rfl := List.mem_singleton.mp (hnewline ▸ hb)
    decide
  · obtain rfl := List.eq_of_mem_replicate hc
    obtain rfl := List.mem_singleton.mp (hspace ▸ hb)
    decide

/-! ## Texts at the front of an input -/

/-- A text that **`Opens`** an entry -- its first byte is neither blank nor a closing bracket. -/
def Opens (text : String) : Prop :=
  ∃ b r, Utf8.bytes text = b :: r ∧ isBlank b = false ∧ glyph b ≠ ']'

theorem Opens.append {text : String} (h : Opens text) (more : String) : Opens (text ++ more) := by
  obtain ⟨b, r, hbytes, hb⟩ := h
  exact ⟨b, r ++ Utf8.bytes more, by rw [Utf8.bytes_append, hbytes, List.cons_append], hb⟩

theorem Opens.skipBlanks {text : String} (h : Opens text) (rest : List UInt8) :
    Json.skipBlanks (Utf8.bytes text ++ rest) = Utf8.bytes text ++ rest := by
  obtain ⟨b, r, hbytes, hb, -⟩ := h
  rw [hbytes, List.cons_append, skipBlanks_cons hb]

/-- A reader **`Takes`** a text for a value -- it reads the value off the front of every input that
has the text behind blanks, and leaves what is behind the text. -/
def Reader.Takes {α : Type} (reader : Reader α) (text : String) (a : α) : Prop :=
  ∀ s rest, skipBlanks s = Utf8.bytes text ++ rest → reader.scan s = .ok ⟨a, rest⟩

theorem bytes_quote (s : String) :
    Utf8.bytes (quote s) = 0x22 :: (Utf8.encode (s.toList.flatMap escape) ++ [0x22]) := by
  have hmark : Utf8.bytes "\"" = [0x22] := by decide
  rw [quote, Utf8.bytes_append, Utf8.bytes_append, hmark, Utf8.bytes, String.toList_ofList]
  rfl

theorem opens_quote (s : String) : Opens (quote s) :=
  ⟨0x22, _, bytes_quote s, by decide, by decide⟩

/-! ## Layout -/

theorem intercalate_eq_join (sep first : String) (others : List String) :
    sep.intercalate (first :: others) = first ++ String.join (others.map (sep ++ ·)) := by
  induction others generalizing first with
  | nil => rw [String.intercalate_singleton, List.map_nil, String.join_nil, String.append_empty]
  | cons next others ih =>
    rw [String.intercalate_cons_cons, ih, List.map_cons, String.join_cons, String.append_assoc,
      String.append_assoc]

/-- What is written between brackets behind the first entry, with the closing bracket. -/
def behindFirst (level : Nat) (closing : String) (entries : List String) : String :=
  String.join (entries.map ("," ++ lineAt (level + 1) ++ ·)) ++ lineAt level ++ closing

theorem bytes_behindFirst_nil (level : Nat) (closing : String) :
    Utf8.bytes (behindFirst level closing [])
      = Utf8.bytes (lineAt level) ++ Utf8.bytes closing := by
  rw [behindFirst, List.map_nil, String.join_nil, String.empty_append, Utf8.bytes_append]

theorem bytes_behindFirst_cons (level : Nat) (closing entry : String) (entries : List String) :
    Utf8.bytes (behindFirst level closing (entry :: entries))
      = 0x2C :: (Utf8.bytes (lineAt (level + 1)) ++ (Utf8.bytes entry
        ++ Utf8.bytes (behindFirst level closing entries))) := by
  have hcomma : Utf8.bytes "," = [0x2C] := by decide
  rw [behindFirst, behindFirst, List.map_cons, String.join_cons]
  simp only [Utf8.bytes_append, hcomma, List.append_assoc, List.cons_append, List.nil_append]

theorem bytes_bracketed_cons (level : Nat) (opening closing entry : String)
    (entries : List String) :
    Utf8.bytes (bracketed level opening closing (entry :: entries))
      = Utf8.bytes opening ++ (Utf8.bytes (lineAt (level + 1)) ++ (Utf8.bytes entry
        ++ Utf8.bytes (behindFirst level closing entries))) := by
  have hfilled : ¬(entry :: entries).isEmpty = true := Bool.false_ne_true
  rw [bracketed, if_neg hfilled, intercalate_eq_join, behindFirst]
  simp only [Utf8.bytes_append, List.append_assoc]

/-! ## Lists -/

section Elements

variable {α : Type} {element : Reader α} {seen : List α}

theorem readElements_closed {first : Bool} {s rest : List UInt8}
    (h : nextElement first s = .ok (.closed rest)) :
    readElements element first seen s = .ok ⟨seen.reverse, rest⟩ := by
  rw [readElements_eq, h]
  rfl

theorem readElements_entry {first : Bool} {s rest : List UInt8} {t : Taken α}
    (h : nextElement first s = .ok (.entry rest)) (helement : element.scan rest = .ok t) :
    readElements element first seen s = readElements element false (t.value :: seen) t.rest := by
  rw [readElements_eq, h]
  show element.scan rest >>= _ = _
  rw [helement]
  rfl

theorem nextElement_closed {s rest : List UInt8} (h : skipBlanks s = 0x5D :: rest) (first : Bool) :
    nextElement first s = .ok (.closed rest) := by
  have hclosing : glyph 0x5D = ']' := by decide
  simp only [nextElement, h, hclosing, if_true]

theorem nextElement_first {s rest : List UInt8} {text : String} (hopens : Opens text)
    (h : skipBlanks s = Utf8.bytes text ++ rest) :
    nextElement true s = .ok (.entry (Utf8.bytes text ++ rest)) := by
  obtain ⟨b, r, hbytes, -, hb⟩ := hopens
  rw [hbytes, List.cons_append] at h ⊢
  simp only [nextElement, h, hb, if_false, if_true]

theorem nextElement_comma {s r rest : List UInt8} {text : String} (hopens : Opens text)
    (h : skipBlanks s = 0x2C :: r) (hr : skipBlanks r = Utf8.bytes text ++ rest) :
    nextElement false s = .ok (.entry (Utf8.bytes text ++ rest)) := by
  have hcomma : glyph 0x2C = ',' := by decide
  obtain ⟨b, r', hbytes, -, hb⟩ := hopens
  rw [hbytes, List.cons_append] at hr ⊢
  have hne : ¬(',' = ']') := by decide
  simp only [nextElement, h, hr, hcomma, hb, hne, if_false, if_true, Bool.false_eq_true]

/-- An element is read off the front. -/
theorem readElements_element {text : String} {a : α} (h : element.Takes text a)
    (hopens : Opens text) {first : Bool} {s rest : List UInt8}
    (hnext : nextElement first s = .ok (.entry (Utf8.bytes text ++ rest))) (seen : List α) :
    readElements element first seen s = readElements element false (a :: seen) rest :=
  readElements_entry hnext (h _ rest (hopens.skipBlanks rest))

/-- What is written for the elements behind the first one, up to the closing bracket, is read. -/
theorem readElements_behindFirst {text : α → String} (level : Nat) (rest : List UInt8) :
    ∀ {items : List α}, (∀ a ∈ items, element.Takes (text a) a ∧ Opens (text a)) →
    ∀ seen : List α, readElements element false seen
        (Utf8.bytes (behindFirst level "]" (items.map text)) ++ rest)
      = .ok ⟨seen.reverse ++ items, rest⟩
  | [], _, seen => by
    have hend : skipBlanks (Utf8.bytes (lineAt level) ++ (Utf8.bytes "]" ++ rest)) = 0x5D :: rest :=
      skipBlanks_append (blanks_lineAt level) _
    rw [List.map_nil, bytes_behindFirst_nil, List.append_assoc,
      readElements_closed (nextElement_closed hend false), List.append_nil]
  | a :: items, h, seen => by
    rw [List.forall_mem_cons] at h
    obtain ⟨⟨htakes, hopens⟩, hitems⟩ := h
    have hgap := skipBlanks_append (blanks_lineAt (level + 1))
      (Utf8.bytes (text a) ++ (Utf8.bytes (behindFirst level "]" (items.map text)) ++ rest))
    rw [hopens.skipBlanks] at hgap
    have hnext := nextElement_comma hopens (skipBlanks_cons (by decide) _) hgap
    rw [List.map_cons, bytes_behindFirst_cons, List.cons_append, List.append_assoc,
      List.append_assoc, readElements_element htakes hopens hnext,
      readElements_behindFirst level rest hitems, List.reverse_cons, List.append_assoc,
      List.singleton_append]

/-- A list in brackets is read, from behind its opening bracket. -/
theorem readElements_bracketed {text : α → String} (level : Nat) {items : List α}
    (h : ∀ a ∈ items, element.Takes (text a) a ∧ Opens (text a)) :
    ∃ body, Utf8.bytes (bracketed level "[" "]" (items.map text)) = 0x5B :: body
      ∧ ∀ rest, readElements element true [] (body ++ rest) = .ok ⟨items, rest⟩ := by
  cases items with
  | nil =>
    have hbytes : Utf8.bytes ("[" ++ "]") = [0x5B, 0x5D] := by decide
    refine ⟨[0x5D], hbytes, fun rest => ?_⟩
    exact readElements_closed (nextElement_closed (skipBlanks_cons (by decide) rest) true)
  | cons a items =>
    have hbracket : Utf8.bytes "[" = [0x5B] := by decide
    rw [List.map_cons, bytes_bracketed_cons, hbracket, List.singleton_append]
    refine ⟨_, rfl, fun rest => ?_⟩
    rw [List.forall_mem_cons] at h
    obtain ⟨⟨htakes, hopens⟩, hitems⟩ := h
    have hgap := skipBlanks_append (blanks_lineAt (level + 1))
      (Utf8.bytes (text a) ++ (Utf8.bytes (behindFirst level "]" (items.map text)) ++ rest))
    rw [hopens.skipBlanks] at hgap
    rw [List.append_assoc, List.append_assoc,
      readElements_element htakes hopens (nextElement_first hopens hgap),
      readElements_behindFirst level rest hitems]
    rfl

end Elements

/-! ## Objects -/

section Members

variable {α : Type} {member : List (String × α) → String → Reader α} {seen : List (String × α)}

theorem readMembers_closed {first : Bool} {s rest : List UInt8}
    (h : nextMember first s = .ok (.closed rest)) :
    readMembers .stream member first seen s = .ok ⟨seen.reverse, rest⟩ := by
  rw [readMembers_eq, h]
  rfl

theorem readMembers_entry {first : Bool} {s rest : List UInt8} {key : Taken String} {t : Taken α}
    (h : nextMember first s = .ok (.entry rest)) (hkey : readQuoted.scan rest = .ok key)
    (hmember : (member seen key.value).scan key.rest = .ok t) :
    readMembers .stream member first seen s
      = readMembers .stream member false ((key.value, t.value) :: seen) t.rest := by
  rw [readMembers_eq, h]
  show readQuoted.scan rest >>= _ = _
  rw [hkey]
  show (member seen key.value).scan key.rest >>= _ = _
  rw [hmember]
  rfl

theorem nextMember_closed {s rest : List UInt8} (h : skipBlanks s = 0x7D :: rest) (first : Bool) :
    nextMember first s = .ok (.closed rest) := by
  have hclosing : glyph 0x7D = '\x7d' := by decide
  simp only [nextMember, h, hclosing, if_true]

theorem nextMember_first {s rest : List UInt8} (h : skipBlanks s = 0x22 :: rest) :
    nextMember true s = .ok (.entry rest) := by
  have hmark : glyph 0x22 = '"' := by decide
  have hne : ¬('"' = '\x7d') := by decide
  simp only [nextMember, h, hmark, hne, if_false, if_true]

theorem nextMember_comma {s r rest : List UInt8} (h : skipBlanks s = 0x2C :: r)
    (hr : skipBlanks r = 0x22 :: rest) : nextMember false s = .ok (.entry rest) := by
  have hcomma : glyph 0x2C = ',' := by decide
  have hmark : glyph 0x22 = '"' := by decide
  have hne : ¬(',' = '\x7d') := by decide
  simp only [nextMember, h, hr, hcomma, hmark, hne, if_false, if_true, Bool.false_eq_true]

/-- How a member is written: its key, and behind a colon what it holds. -/
def memberText (key text : String) : String :=
  quote key ++ ": " ++ text

theorem opens_colon (text : String) : Opens (": " ++ text) := by
  refine ⟨0x3A, 0x20 :: Utf8.bytes text, ?_, by decide, by decide⟩
  rw [Utf8.bytes_append]
  rfl

/-- What holds a value is read behind the colon that stands in front of it. -/
theorem Reader.Takes.afterColon {value : Reader α} {text : String} {a : α}
    (h : value.Takes text a) (hopens : Opens text) :
    (Json.afterColon value).Takes (": " ++ text) a := by
  intro s rest hs
  have hcolon : colon s = .ok (0x20 :: (Utf8.bytes text ++ rest)) := by
    have hmark : glyph 0x3A = ':' := by decide
    rw [Utf8.bytes_append, List.append_assoc] at hs
    have hbytes : Utf8.bytes ": " = [0x3A, 0x20] := by decide
    rw [hbytes, List.cons_append, List.cons_append, List.nil_append] at hs
    simp only [colon, hs, hmark, if_true]
  have hblank : skipBlanks (0x20 :: (Utf8.bytes text ++ rest)) = Utf8.bytes text ++ rest :=
    hopens.skipBlanks rest
  show (do value.scan (← colon s)) = _
  rw [hcolon]
  exact h _ rest hblank

theorem bytes_memberText (key text : String) (rest : List UInt8) :
    Utf8.bytes (memberText key text) ++ rest
      = 0x22 :: (Utf8.encode (key.toList.flatMap escape)
        ++ 0x22 :: (Utf8.bytes (": " ++ text) ++ rest)) := by
  rw [memberText, String.append_assoc, Utf8.bytes_append, bytes_quote]
  simp only [List.cons_append, List.append_assoc, List.nil_append]

/-- A member is read off the front, from behind the mark that opens its key. -/
theorem readMembers_member {text key : String} {a : α}
    (h : ∀ seen, (member seen key).Takes (": " ++ text) a) {first : Bool} {s rest : List UInt8}
    (hnext : nextMember first s = .ok (.entry (Utf8.encode (key.toList.flatMap escape)
      ++ 0x22 :: (Utf8.bytes (": " ++ text) ++ rest)))) (seen : List (String × α)) :
    readMembers .stream member first seen s
      = readMembers .stream member false ((key, a) :: seen) rest :=
  readMembers_entry hnext (readQuoted_escape key _)
    (h seen _ rest ((opens_colon text).skipBlanks rest))

/-- What is written for the members behind the first one, up to the closing bracket, is read. -/
theorem readMembers_behindFirst {text : α → String} (level : Nat) (rest : List UInt8) :
    ∀ {items : List (String × α)},
    (∀ m ∈ items, ∀ seen, (member seen m.1).Takes (": " ++ text m.2) m.2) →
    ∀ seen : List (String × α), readMembers .stream member false seen
        (Utf8.bytes (behindFirst level "\x7d" (items.map fun m => memberText m.1 (text m.2)))
          ++ rest)
      = .ok ⟨seen.reverse ++ items, rest⟩
  | [], _, seen => by
    have hend : skipBlanks (Utf8.bytes (lineAt level) ++ (Utf8.bytes "\x7d" ++ rest))
        = 0x7D :: rest :=
      skipBlanks_append (blanks_lineAt level) _
    rw [List.map_nil, bytes_behindFirst_nil, List.append_assoc,
      readMembers_closed (nextMember_closed hend false), List.append_nil]
  | m :: items, h, seen => by
    rw [List.forall_mem_cons] at h
    obtain ⟨hmember, hitems⟩ := h
    have hnext (r : List UInt8) :
        nextMember false (0x2C :: (Utf8.bytes (lineAt (level + 1)) ++ 0x22 :: r))
          = .ok (.entry r) :=
      nextMember_comma (skipBlanks_cons (by decide) _) (skipBlanks_append (blanks_lineAt _) _)
    rw [List.map_cons, bytes_behindFirst_cons, List.cons_append, List.append_assoc,
      List.append_assoc, bytes_memberText, readMembers_member hmember (hnext _),
      readMembers_behindFirst level rest hitems, List.reverse_cons, List.append_assoc,
      List.singleton_append]

/-- An object in brackets is read, from behind its opening bracket. -/
theorem readMembers_bracketed {text : α → String} (level : Nat) {items : List (String × α)}
    (h : ∀ m ∈ items, ∀ seen, (member seen m.1).Takes (": " ++ text m.2) m.2) :
    ∃ body, Utf8.bytes (bracketed level "\x7b" "\x7d"
        (items.map fun m => memberText m.1 (text m.2))) = 0x7B :: body
      ∧ ∀ rest, readMembers .stream member true [] (body ++ rest) = .ok ⟨items, rest⟩ := by
  cases items with
  | nil =>
    have hbytes : Utf8.bytes ("\x7b" ++ "\x7d") = [0x7B, 0x7D] := by decide
    refine ⟨[0x7D], hbytes, fun rest => ?_⟩
    exact readMembers_closed (nextMember_closed (skipBlanks_cons (by decide) rest) true)
  | cons m items =>
    have hbracket : Utf8.bytes "\x7b" = [0x7B] := by decide
    rw [List.map_cons, bytes_bracketed_cons, hbracket, List.singleton_append]
    refine ⟨_, rfl, fun rest => ?_⟩
    rw [List.forall_mem_cons] at h
    obtain ⟨hmember, hitems⟩ := h
    have hnext (r : List UInt8) :
        nextMember true (Utf8.bytes (lineAt (level + 1)) ++ 0x22 :: r) = .ok (.entry r) :=
      nextMember_first (skipBlanks_append (blanks_lineAt _) _)
    rw [List.append_assoc, List.append_assoc, bytes_memberText,
      readMembers_member hmember (hnext _), readMembers_behindFirst level rest hitems]
    rfl

end Members

/-! ## Members in order -/

namespace Members

theorem insert_eq_append {key : String} (value : Value) :
    ∀ {members : Members}, (∀ m ∈ members, m.1 < key) →
    insert key value members = members ++ [(key, value)]
  | [], _ => rfl
  | (k, v) :: members, h => by
    rw [List.forall_mem_cons] at h
    obtain ⟨hk, hmembers⟩ := h
    rw [insert, if_neg (lt_asymm hk), if_neg hk.ne', insert_eq_append value hmembers,
      List.cons_append]

/-- Members that are written in ascending order of their keys are kept as they are written. -/
theorem ofList_eq {members : Members} (h : (members.map Prod.fst).Pairwise (· < ·)) :
    ofList members = members := by
  rw [List.pairwise_map] at h
  suffices hfrom : ∀ (kept written : Members),
      (kept ++ written).Pairwise (fun m n => m.1 < n.1) →
      written.foldl (fun members m => members.insert m.1 m.2) kept = kept ++ written
    from hfrom [] members h
  -- Each member goes behind those that are kept already, since its key is the greatest so far.
  intro kept written
  induction written generalizing kept with
  | nil =>
    intro _
    rw [List.foldl_nil, List.append_nil]
  | cons m written ih =>
    intro hwritten
    have hkept : ∀ n ∈ kept, n.1 < m.1 := fun n hn =>
      (List.pairwise_append.mp hwritten).2.2 n hn m List.mem_cons_self
    show written.foldl _ (kept.insert m.1 m.2) = _
    rw [insert_eq_append m.2 hkept, ih] <;> rw [List.append_assoc, List.singleton_append]
    exact hwritten

end Members

/-! ## Documents -/

/-- Documents that are **`Regular`** within `room` -- no numbers, the keys of every object in
ascending order, and at most `room` lists and objects inside one another. -/
inductive Regular : (room : Nat) → Value → Prop where
  | null (room : Nat) : Regular room .null
  | bool (room : Nat) (b : Bool) : Regular room (.bool b)
  | string (room : Nat) (s : String) : Regular room (.string s)
  | array {room : Nat} {items : List Value} (hitems : ∀ v ∈ items, Regular room v) :
    Regular (room + 1) (.array items)
  | object {room : Nat} {members : Members} (hkeys : (members.map Prod.fst).Pairwise (· < ·))
    (hmembers : ∀ m ∈ members, Regular room m.2) : Regular (room + 1) (.object members)

theorem prettyItems_eq_map (level : Nat) (items : List Value) :
    prettyItems level items = items.map (Value.prettyAt level) := by
  induction items with
  | nil => rfl
  | cons v items ih => rw [prettyItems, ih, List.map_cons]

theorem prettyMembers_eq_map (level : Nat) (members : Members) :
    prettyMembers level members = members.map fun m => memberText m.1 (m.2.prettyAt level) := by
  induction members with
  | nil => rfl
  | cons m members ih =>
    obtain ⟨key, v⟩ := m
    rw [prettyMembers, ih, List.map_cons]
    rfl

section Values

variable {part : Option (Reader Value)} {inner : Reader Value} {text : String} {b : UInt8}
  {r : List UInt8}

/-- A word is read, whatever its letters are. -/
theorem readWith_word {letters : List Char} {value : Value} (hbytes : Utf8.bytes text = b :: r)
    (hfront : isBlank b = false ∧ glyph b ≠ ']') (hlead : lead? b = some (.word letters value))
    (hletters : ∀ rest, spelled letters (r ++ rest) = .ok rest) :
    (readWith .stream part).Takes text value ∧ Opens text := by
  refine ⟨fun s rest hs => ?_, b, r, hbytes, hfront⟩
  rw [hbytes, List.cons_append] at hs
  simp only [readWith, hs, hlead, hletters]
  rfl

theorem readWith_quote (s : String) : (readWith .stream part).Takes (quote s) (.string s) := by
  intro input rest hs
  have hlead : lead? 0x22 = some .text := rfl
  rw [bytes_quote, List.cons_append, List.append_assoc, List.singleton_append] at hs
  simp only [readWith, hs, hlead, Source.quoted_stream, readQuoted_escape]
  rfl

theorem readWith_list {items : List Value} (hbytes : Utf8.bytes text = 0x5B :: r)
    (hitems : ∀ rest, readElements inner true [] (r ++ rest) = .ok ⟨items, rest⟩) :
    (readWith .stream (some inner)).Takes text (.array items) := by
  intro s rest hs
  have hlead : lead? 0x5B = some .list := rfl
  rw [hbytes, List.cons_append] at hs
  simp only [readWith, hs, hlead, hitems]
  rfl

theorem readWith_object {members : Members} (hbytes : Utf8.bytes text = 0x7B :: r)
    (hmembers : ∀ rest, readMembers .stream (fun _ _ => afterColon inner) true [] (r ++ rest)
      = .ok ⟨members, rest⟩)
    (hkeys : (members.map Prod.fst).Pairwise (· < ·)) :
    (readWith .stream (some inner)).Takes text (.object members) := by
  intro s rest hs
  have hlead : lead? 0x7B = some .object := rfl
  rw [hbytes, List.cons_append] at hs
  simp only [readWith, hs, hlead, hmembers]
  rw [Except.map, Taken.map, Members.ofList_eq hkeys]

end Values

theorem opens_bracketed (level : Nat) {opening closing : String} (h : Opens opening)
    (entries : List String) : Opens (bracketed level opening closing entries) := by
  unfold bracketed
  split
  · exact h.append closing
  · exact (((h.append _).append _).append _).append _

/-- However much room there is, a value is read by its first byte. -/
theorem exists_readWith (room : Nat) : ∃ part, readValue .stream room = readWith .stream part := by
  cases room <;> exact ⟨_, rfl⟩

/-- A regular document is read off the front where its pretty layout stands. -/
theorem Regular.takes {room : Nat} {v : Value} (h : Regular room v) (level : Nat) :
    (readValue .stream room).Takes (v.prettyAt level) v ∧ Opens (v.prettyAt level) := by
  -- What stands inside is laid out one level further in, so the level is general.
  induction h generalizing level with
  | null room =>
    obtain ⟨part, hpart⟩ := exists_readWith room
    have hbytes : Utf8.bytes "null" = [0x6E, 0x75, 0x6C, 0x6C] := by decide
    rw [hpart]
    exact readWith_word hbytes (by decide) rfl fun rest => rfl
  | bool room b =>
    obtain ⟨part, hpart⟩ := exists_readWith room
    rw [hpart]
    cases b with
    | true =>
      have hbytes : Utf8.bytes "true" = [0x74, 0x72, 0x75, 0x65] := by decide
      exact readWith_word hbytes (by decide) rfl fun rest => rfl
    | false =>
      have hbytes : Utf8.bytes "false" = [0x66, 0x61, 0x6C, 0x73, 0x65] := by decide
      exact readWith_word hbytes (by decide) rfl fun rest => rfl
  | string room s =>
    obtain ⟨part, hpart⟩ := exists_readWith room
    rw [hpart]
    exact ⟨readWith_quote s, opens_quote s⟩
  | @array room items _ ih =>
    obtain ⟨body, hbytes, hitems⟩ := readElements_bracketed level fun v hv => ih v hv (level + 1)
    rw [Value.prettyAt, prettyItems_eq_map]
    exact ⟨readWith_list hbytes hitems, opens_bracketed level ⟨0x5B, [], by decide⟩ _⟩
  | @object room members hkeys _ ih =>
    let member (_ : List (String × Value)) (_ : String) : Reader Value :=
      afterColon (readValue .stream room)
    have hmember : ∀ m ∈ members, ∀ seen,
        (member seen m.1).Takes (": " ++ m.2.prettyAt (level + 1)) m.2 :=
      fun m hm _ => (ih m hm (level + 1)).1.afterColon (ih m hm (level + 1)).2
    obtain ⟨body, hbytes, hmembers⟩ := readMembers_bracketed level hmember
    rw [Value.prettyAt, prettyMembers_eq_map]
    exact ⟨readWith_object hbytes hmembers hkeys, opens_bracketed level ⟨0x7B, [], by decide⟩ _⟩

/-- **`Value.ofText_pretty`** -- a regular document is read back from its pretty layout, with
nothing but blanks behind it. -/
theorem Value.ofText_pretty {v : Value} (h : Regular maxNesting v) {blanks : String}
    (hblanks : Blanks (Utf8.bytes blanks)) : Value.ofText (v.pretty ++ blanks) = .ok v := by
  obtain ⟨htakes, hopens⟩ := h.takes 0
  have hscan := htakes _ _ (hopens.skipBlanks (Utf8.bytes blanks))
  have hend : skipBlanks (Utf8.bytes blanks) = [] := by
    rw [← List.append_nil (Utf8.bytes blanks), skipBlanks_append hblanks]
    rfl
  rw [Value.ofText_eq_ofBytes, Value.ofBytes, Value.pretty, Utf8.bytes_append, toEnd, hscan]
  simp only [bind, Except.bind, hend]
  rfl

end ChapterCheck.Json
