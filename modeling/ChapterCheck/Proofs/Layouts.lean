/-
# ChapterCheck.Proofs.Layouts -- a document is known from its text

No two documents without numbers have the same text, be it the compact or the pretty one
(`Value.compact_injective`, `Value.pretty_injective`).

Both texts come about in the same way, but for the blanks between the entries of a list or an object
and the sign behind a key; a `Layout` is what they have in common. In a layout the text of a
document is `Delimited`: whatever stands behind it, it is not the text of another document
(`Layout.delimited`). A quoted text is, since its reader takes no more than that
(`delimited_quote`), and entries in brackets are, since a comma leads to the next one and a bracket
does not (`delimited_inside`). The text of a number is not, which is why there must be none.
-/
import ChapterCheck.Proofs.ReadBack

namespace ChapterCheck.Json

/-! ## Delimited texts -/

/-- The text of `a` is **`Delimited`** -- whatever stands behind it, it is not the text of another
thing of its sort. -/
def Delimited {α : Type} (sort : α → Prop) (text : α → List Char) (a : α) : Prop :=
  ∀ b, sort b → ∀ x y, text a ++ x = text b ++ y → a = b

theorem delimited_quote (s : String) :
    Delimited (fun _ => True) (fun t => (quote t).toList) s := by
  intro t _ x y h
  have hbytes : Utf8.bytes (quote s) ++ Utf8.encode x = Utf8.bytes (quote t) ++ Utf8.encode y := by
    rw [Utf8.bytes, Utf8.bytes, ← Utf8.encode_append, ← Utf8.encode_append]
    exact congrArg Utf8.encode h
  simp only [bytes_quote, List.cons_append, List.append_assoc, List.nil_append] at hbytes
  have hread := readQuoted_escape s (Utf8.encode x)
  rw [(List.cons.inj hbytes).2, readQuoted_escape] at hread
  exact (Taken.mk.inj (Except.ok.inj hread)).1.symm

section Entries

variable {α : Type} {sort : α → Prop} {text : α → List Char}

theorem Delimited.append_inj {a b : α} (h : Delimited sort text a) (hb : sort b) {x y : List Char}
    (heq : text a ++ x = text b ++ y) : a = b ∧ x = y := by
  obtain rfl := h b hb x y heq
  exact ⟨rfl, List.append_cancel_left heq⟩

/-! ## Entries in brackets -/

/-- What is written behind an opening bracket: the entries, each on its own after `far`, and the
closing bracket after `near`. -/
def inside (near far : List Char) (closing : Char) : List (List Char) → List Char
  | [] => [closing]
  | entry :: entries =>
    far ++ (entry ++ (entries.flatMap (fun e => ',' :: (far ++ e)) ++ (near ++ [closing])))

/-- What stands behind the first entry, up to something that begins with no comma, is of these
entries only. -/
theorem delimited_behind (far : List Char) {as bs : List α} (has : ∀ a ∈ as, Delimited sort text a)
    (hbs : ∀ b ∈ bs, sort b) {u v : List Char} (hu : ∀ z, u ≠ ',' :: z) (hv : ∀ z, v ≠ ',' :: z)
    (h : as.flatMap (fun a => ',' :: (far ++ text a)) ++ u
      = bs.flatMap (fun b => ',' :: (far ++ text b)) ++ v) : as = bs ∧ u = v := by
  induction as generalizing bs with
  | nil =>
    cases bs with
    | nil => exact ⟨rfl, h⟩
    | cons b bs => exact absurd h (hu _)
  | cons a as ih =>
    cases bs with
    | nil => exact absurd h.symm (hv _)
    | cons b bs =>
      rw [List.forall_mem_cons] at has hbs
      simp only [List.flatMap_cons, List.cons_append, List.append_assoc, List.cons.injEq,
        List.append_cancel_left_eq, true_and] at h
      obtain ⟨rfl, hrest⟩ := has.1.append_inj hbs.1 h
      obtain ⟨rfl, hend⟩ := ih has.2 hbs.2 hrest
      exact ⟨rfl, hend⟩

/-- Nothing but blanks. -/
def Gap (s : List Char) : Prop :=
  ∀ c ∈ s, c = ' ' ∨ c = '\n'

/-- A text behind blanks begins with a blank or with its own first sign. -/
theorem Gap.append_ne {gap : List Char} (h : Gap gap) {c d : Char} (hc : c ≠ ' ' ∧ c ≠ '\n')
    (hne : d ≠ c) (r z : List Char) : gap ++ d :: r ≠ c :: z := by
  intro heq
  cases gap with
  | nil => exact hne (List.cons.inj heq).1
  | cons e gap =>
    rcases h e List.mem_cons_self with rfl | rfl
    · exact hc.1 (List.cons.inj heq).1.symm
    · exact hc.2 (List.cons.inj heq).1.symm

section Inside

variable {near far : List Char} {closing : Char} (hfar : Gap far)
  (hclosing : closing = ']' ∨ closing = '\x7d')
  (hfront : ∀ a, sort a → ∃ c r, text a = c :: r ∧ c ≠ closing)

include hfar hclosing hfront

/-- Brackets with an entry in them do not begin like empty ones. -/
theorem inside_cons_ne {a : α} (ha : sort a) (entries : List (List Char)) (x y : List Char) :
    inside near far closing (text a :: entries) ++ x ≠ inside near far closing [] ++ y := by
  have hblank : closing ≠ ' ' ∧ closing ≠ '\n' := by
    rcases hclosing with rfl | rfl <;> decide
  obtain ⟨c, r, htext, hne⟩ := hfront a ha
  simp only [inside, htext, List.append_assoc, List.cons_append, List.nil_append]
  exact hfar.append_ne hblank hne _ _

/-- **`delimited_inside`** -- what stands in brackets is of these entries only. -/
theorem delimited_inside (hnear : Gap near) {as bs : List α}
    (has : ∀ a ∈ as, sort a ∧ Delimited sort text a) (hbs : ∀ b ∈ bs, sort b) {x y : List Char}
    (h : inside near far closing (as.map text) ++ x = inside near far closing (bs.map text) ++ y) :
    as = bs := by
  have closed (z z' : List Char) : near ++ closing :: z ≠ ',' :: z' := by
    refine hnear.append_ne (by decide) ?_ z z'
    rcases hclosing with rfl | rfl <;> decide
  cases as with
  | nil =>
    cases bs with
    | nil => rfl
    | cons b bs =>
      have hb := hbs b List.mem_cons_self
      exact absurd h.symm (inside_cons_ne hfar hclosing hfront hb _ _ _)
  | cons a as =>
    cases bs with
    | nil =>
      have ha := (has a List.mem_cons_self).1
      exact absurd h (inside_cons_ne hfar hclosing hfront ha _ _ _)
    | cons b bs =>
      rw [List.forall_mem_cons] at has hbs
      simp only [List.map_cons, inside, List.append_assoc, List.append_cancel_left_eq,
        List.flatMap_map, List.cons_append, List.nil_append] at h
      obtain ⟨rfl, hrest⟩ := has.1.2.append_inj hbs.1 h
      have hothers : ∀ a ∈ as, Delimited sort text a := fun a ha => (has.2 a ha).2
      obtain ⟨rfl, -⟩ := delimited_behind far hothers hbs.2 (closed x) (closed y) hrest
      rfl

end Inside

end Entries

/-! ## Layouts -/

/-- A document without numbers. -/
inductive Value.Numberless : Value → Prop where
  | null : Numberless .null
  | bool (b : Bool) : Numberless (.bool b)
  | string (s : String) : Numberless (.string s)
  | array {items : List Value} (hitems : ∀ v ∈ items, Numberless v) : Numberless (.array items)
  | object {members : Members} (hmembers : ∀ m ∈ members, Numberless m.2) :
    Numberless (.object members)

/-- A **`Layout`** -- how the text of a document at a level is made of the texts of what it holds,
one level further in. -/
structure Layout (text : Nat → Value → List Char) where
  /-- What stands in front of an entry at a level. -/
  gap : Nat → List Char
  /-- What stands behind a key. -/
  colon : List Char
  blank : ∀ level, Gap (gap level)
  null : ∀ level, text level .null = "null".toList
  bool : ∀ level b, text level (.bool b) = (if b then "true" else "false").toList
  string : ∀ level s, text level (.string s) = (quote s).toList
  array : ∀ level items, text level (.array items)
    = '[' :: inside (gap level) (gap (level + 1)) ']' (items.map (text (level + 1)))
  object : ∀ level members, text level (.object members)
    = '\x7b' :: inside (gap level) (gap (level + 1)) '\x7d'
      (members.map fun m => (quote m.1).toList ++ (colon ++ text (level + 1) m.2))

/-- Documents whose texts may begin in the same way. -/
inductive Value.Alike : Value → Value → Prop where
  | same (v : Value) : Alike v v
  | string (s t : String) : Alike (.string s) (.string t)
  | array (items others : List Value) : Alike (.array items) (.array others)
  | object (members others : Members) : Alike (.object members) (.object others)

/-- The sign that the text of a document without numbers begins with. -/
def Value.mark : Value → Char
  | .null => 'n'
  | .bool b => if b then 't' else 'f'
  | .number _ => '0'
  | .string _ => '"'
  | .array _ => '['
  | .object _ => '\x7b'

theorem Value.alike_of_mark {v w : Value} (hv : v.Numberless) (hw : w.Numberless)
    (h : v.mark = w.mark) : v.Alike w := by
  cases hv <;> cases hw <;> first
    | constructor
    | grind [mark, Value.Alike.same]

theorem Value.mark_ne (v : Value) : v.mark ≠ ']' := by
  cases v with
  | bool b => cases b <;> decide
  | _ => simp [mark]

theorem toList_quote (s : String) :
    (quote s).toList = '"' :: (s.toList.flatMap escape ++ ['"']) := by
  have hmark : "\"".toList = ['"'] := rfl
  simp only [quote, String.toList_append, String.toList_ofList, hmark, List.cons_append,
    List.nil_append]

namespace Layout

variable {text : Nat → Value → List Char} (L : Layout text)

include L

theorem front {v : Value} (h : v.Numberless) (level : Nat) : ∃ r, text level v = v.mark :: r := by
  cases h with
  | null => exact ⟨_, L.null level⟩
  | bool b => cases b <;> exact ⟨_, L.bool level _⟩
  | string s => exact ⟨_, (L.string level s).trans (toList_quote s)⟩
  | array => exact ⟨_, L.array level _⟩
  | object => exact ⟨_, L.object level _⟩

theorem alike {level : Nat} {v w : Value} (hv : v.Numberless) (hw : w.Numberless)
    {x y : List Char} (h : text level v ++ x = text level w ++ y) : v.Alike w := by
  obtain ⟨r, hr⟩ := L.front hv level
  obtain ⟨s, hs⟩ := L.front hw level
  rw [hr, hs] at h
  exact Value.alike_of_mark hv hw (List.cons.inj h).1

/-- The text of a member is delimited if that of its value is. -/
theorem delimited_member {level : Nat} {m : String × Value}
    (h : Delimited Value.Numberless (text level) m.2) :
    Delimited (fun n => n.2.Numberless)
      (fun n => (quote n.1).toList ++ (L.colon ++ text level n.2)) m := by
  intro n hn x y heq
  simp only [List.append_assoc] at heq
  obtain ⟨hkey, hrest⟩ := (delimited_quote m.1).append_inj trivial heq
  exact Prod.ext hkey (h n.2 hn x y (List.append_cancel_left hrest))

/-- **`Layout.delimited`** -- in a layout, the text of a document without numbers is delimited. -/
theorem delimited {v : Value} (h : v.Numberless) (level : Nat) :
    Delimited Value.Numberless (text level) v := by
  -- What stands inside is laid out one level further in, so the level is general.
  induction h generalizing level with
  | null =>
    intro w hw x y heq
    cases L.alike .null hw heq
    rfl
  | bool b =>
    intro w hw x y heq
    cases L.alike (.bool b) hw heq
    rfl
  | string s =>
    intro w hw x y heq
    cases L.alike (.string s) hw heq with
    | same => rfl
    | string _ t =>
      rw [L.string, L.string] at heq
      rw [delimited_quote s t trivial x y heq]
  | @array items hitems ih =>
    intro w hw x y heq
    cases L.alike (.array hitems) hw heq with
    | same => rfl
    | array _ others =>
      cases hw with
      | array hothers =>
        rw [L.array, L.array] at heq
        have hfront : ∀ v, v.Numberless → ∃ c r, text (level + 1) v = c :: r ∧ c ≠ ']' := by
          intro v hv
          obtain ⟨r, hr⟩ := L.front hv (level + 1)
          exact ⟨v.mark, r, hr, v.mark_ne⟩
        rw [delimited_inside (L.blank (level + 1)) (.inl rfl) hfront (L.blank level)
          (fun v hv => ⟨hitems v hv, ih v hv (level + 1)⟩) hothers (List.cons.inj heq).2]
  | @object members hmembers ih =>
    intro w hw x y heq
    cases L.alike (.object hmembers) hw heq with
    | same => rfl
    | object _ others =>
      cases hw with
      | object hothers =>
        rw [L.object, L.object] at heq
        have hfront : ∀ m : String × Value, m.2.Numberless → ∃ c r,
            (quote m.1).toList ++ (L.colon ++ text (level + 1) m.2) = c :: r ∧ c ≠ '\x7d' := by
          intro m _
          rw [toList_quote]
          exact ⟨'"', _, rfl, by decide⟩
        rw [delimited_inside (L.blank (level + 1)) (.inr rfl) hfront (L.blank level)
          (fun m hm => ⟨hmembers m hm, L.delimited_member (ih m hm (level + 1))⟩) hothers
          (List.cons.inj heq).2]

theorem injective {v w : Value} (level : Nat) (hv : v.Numberless) (hw : w.Numberless)
    (h : text level v = text level w) : v = w :=
  L.delimited hv level w hw [] [] (congrArg (· ++ []) h)

end Layout

/-! ## The compact and the pretty layout -/

theorem compactItems_eq_map (items : List Value) :
    compactItems items = items.map Value.compact := by
  induction items with
  | nil => rfl
  | cons v items ih => rw [compactItems, ih, List.map_cons]

theorem compactMembers_eq_map (members : Members) :
    compactMembers members = members.map fun m => quote m.1 ++ ":" ++ m.2.compact := by
  induction members with
  | nil => rfl
  | cons m members ih =>
    obtain ⟨key, v⟩ := m
    rw [compactMembers, ih, List.map_cons]

theorem toList_intercalate {sep : String} {far : List Char} (hsep : sep.toList = ',' :: far)
    (first : String) (others : List String) : (sep.intercalate (first :: others)).toList
      = first.toList ++ (others.map String.toList).flatMap (fun e => ',' :: (far ++ e)) := by
  rw [intercalate_eq_join, String.toList_append, String.toList_join]
  simp [hsep, List.flatMap_map]

section Brackets

variable {opening closing : String} {o c : Char} (ho : opening.toList = [o])
  (hc : closing.toList = [c]) (entries : List String)

include ho hc

/-- Brackets with nothing between entries but a comma. -/
theorem toList_enclosed : (opening ++ ",".intercalate entries ++ closing).toList
    = o :: inside [] [] c (entries.map String.toList) := by
  have hcomma : ",".toList = ',' :: [] := rfl
  cases entries with
  | nil => simp [ho, hc, inside]
  | cons first others =>
    simp only [String.toList_append, toList_intercalate hcomma, ho, hc]
    simp [inside]

/-- Brackets with every entry on a line of its own. -/
theorem toList_bracketed (level : Nat) : (bracketed level opening closing entries).toList
    = o :: inside (lineAt level).toList (lineAt (level + 1)).toList c
      (entries.map String.toList) := by
  have hcomma : ("," ++ lineAt (level + 1)).toList = ',' :: (lineAt (level + 1)).toList := by
    rw [String.toList_append]
    rfl
  cases entries with
  | nil => simp [bracketed, ho, hc, inside]
  | cons first others =>
    simp only [bracketed, List.isEmpty_cons, Bool.false_eq_true, if_false, String.toList_append,
      toList_intercalate hcomma, ho, hc]
    simp [inside]

end Brackets

/-- The compact layout: no blanks at all. -/
def Layout.compact : Layout fun _ v => v.compact.toList where
  gap _ := []
  colon := [':']
  blank _ := nofun
  null _ := rfl
  bool _ b := by cases b <;> rfl
  string _ _ := rfl
  array _ items := by
    rw [Value.compact, compactItems_eq_map, toList_enclosed rfl rfl, List.map_map]
    rfl
  object _ members := by
    rw [Value.compact, compactMembers_eq_map, toList_enclosed (o := '\x7b') (c := '\x7d') rfl rfl,
      List.map_map]
    simp [Function.comp_def]

theorem gap_lineAt (level : Nat) : Gap (lineAt level).toList := by
  intro c hc
  rw [lineAt, String.toList_ofList] at hc
  rcases List.mem_cons.mp hc with rfl | hc
  · exact .inr rfl
  · exact .inl (List.eq_of_mem_replicate hc)

/-- The pretty layout: every entry on a line of its own. -/
def Layout.pretty : Layout fun level v => (v.prettyAt level).toList where
  gap level := (lineAt level).toList
  colon := [':', ' ']
  blank := gap_lineAt
  null _ := rfl
  bool _ b := by cases b <;> rfl
  string _ _ := rfl
  array level items := by
    rw [Value.prettyAt, prettyItems_eq_map, toList_bracketed rfl rfl, List.map_map]
    rfl
  object level members := by
    rw [Value.prettyAt, prettyMembers_eq_map, toList_bracketed (o := '\x7b') (c := '\x7d') rfl rfl,
      List.map_map]
    simp [Function.comp_def, memberText]

/-- **`Value.compact_injective`** -- documents without numbers are the same if they are written the
same, without blanks. -/
theorem Value.compact_injective {v w : Value} (hv : v.Numberless) (hw : w.Numberless)
    (h : v.compact = w.compact) : v = w :=
  Layout.compact.injective 0 hv hw (congrArg String.toList h)

/-- **`Value.pretty_injective`** -- documents without numbers are the same if they are written the
same, over many lines. -/
theorem Value.pretty_injective {v w : Value} (hv : v.Numberless) (hw : w.Numberless)
    (h : v.pretty = w.pretty) : v = w :=
  Layout.pretty.injective 0 hv hw (congrArg String.toList h)

end ChapterCheck.Json
