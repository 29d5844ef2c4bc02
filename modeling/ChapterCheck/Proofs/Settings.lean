/-
# ChapterCheck.Proofs.Settings -- which members of an object are read as settings

The reader of settings goes through a text in step with the reader of documents. Where the second
has read a value, the first takes it if it is of the type that is asked for (`readText_eq_ok_iff`,
`readWord_eq_ok_iff`). So it takes a member that `Gives` a setting, if the name is new
(`readSetting_eq_ok_iff`), and an object each of whose members gives one, each name once
(`readMembers_readSetting_iff`).

What comes of settings put over the defaults is the same for both fields of the options, so a
`Field` is whatever can be read off options, told by a setting and written as a value. The names
being different, no two settings tell the same field, and their order does not matter
(`Field.get_overlay`).
-/
import Mathlib.Data.List.Forall2
import Mathlib.Data.List.Nodup
import ChapterCheck.Options.Reader
import ChapterCheck.Proofs.Written

namespace ChapterCheck.Options

open Json

/-! ## Values of a known type -/

section Values

variable {part : Option (Reader Value)} {s rest : List UInt8} {t : Taken Value}

/-- A text is read just where a value is read that is this text. -/
theorem readText_eq_ok_iff (h : (readWith .stream part).scan s = .ok t) {x : String} :
    readText.scan s = .ok ⟨x, rest⟩ ↔ t.value = .string x ∧ t.rest = rest := by
  rcases (readWith_led h).text_or with
    ⟨b, r, y, hs, hlead, hread, hvalue⟩ | ⟨b, r, lead, hs, hlead, hne, hvalue⟩
  · have hscan : readText.scan s = .ok ⟨y, t.rest⟩ := by
      simp only [readText, hs, hlead, hread]
    rw [hscan, hvalue, Except.ok.injEq, Taken.mk.injEq, Value.string.injEq]
  · refine iff_of_false (fun hscan => ?_) fun heq => hvalue x heq.1
    simp only [readText, hs, hlead] at hscan
    split at hscan
    · exact hne (Option.some.inj ‹_›)
    · cases hscan

/-- A word is read just where a value is read that is this number. -/
theorem readWord_eq_ok_iff (h : (readWith .stream part).scan s = .ok t) {limit : UInt64} :
    readWord.scan s = .ok ⟨limit, rest⟩
      ↔ t.value = .number (.integer limit.toNat) ∧ t.rest = rest := by
  rcases (readWith_led h).number_or with
    ⟨b, r, n, hs, hlead, hread, hvalue⟩ | ⟨b, r, lead, hs, hlead, hne, hvalue⟩
  · obtain ⟨text, -, hmeans⟩ := Number.read_text hread
    simp only [readWord, hs, hlead, hread, bind, Except.bind, hvalue, Value.number.injEq]
    cases n with
    | decimal x =>
      refine iff_of_false ?_ ?_
      · intro heq
        cases heq
      · rintro ⟨heq, -⟩
        cases heq
    | integer i =>
      dsimp only
      split
      · rename_i hpos
        obtain ⟨k, rfl⟩ := Int.eq_ofNat_of_zero_le hpos
        -- What is read as an integer fits, so nothing is lost in the word.
        have hfits : k < UInt64.size := ((hmeans k).mp rfl).2
        have hword : UInt64.ofNat k = limit ↔ k = limit.toNat := by
          rw [← UInt64.toNat_inj, UInt64.toNat_ofNat_of_lt' hfits]
        show Except.ok (Taken.mk (UInt64.ofNat k) t.rest) = _ ↔ _
        rw [Except.ok.injEq, Taken.mk.injEq, hword, Number.integer.injEq, Int.ofNat_inj]
      · rename_i hneg
        refine iff_of_false ?_ ?_
        · intro heq
          cases heq
        · rintro ⟨heq, -⟩
          rw [Number.integer.inj heq] at hneg
          exact hneg (Int.natCast_nonneg _)
  · refine iff_of_false (fun hscan => ?_) fun heq => hvalue _ heq.1
    simp only [readWord, hs, hlead] at hscan
    split at hscan
    · exact hne (Option.some.inj ‹_›)
    · cases hscan

end Values

/-! ## Members that are settings -/

/-- A member **`Gives`** a setting -- its key is the name of the field, and its value is one that
the field can hold. -/
inductive Gives (m : Member) : Setting → Prop
  | version {text : String} : m.key = versionField → m.value = .string text →
      Gives m (.version text)
  | depth {limit : UInt64} : m.key = depthField → m.value = .number (.integer limit.toNat) →
      Gives m (.depth limit)

/-- Settings under their names, as members give them one by one. -/
def Told (written : List Member) (settings : List (String × Setting)) : Prop :=
  List.Forall₂ (fun m p => p.1 = m.key ∧ Gives m p.2) written settings

theorem exists_of_mem_of_forall₂ {α β : Type} {R : α → β → Prop} {as : List α} {bs : List β}
    (h : List.Forall₂ R as bs) : ∀ a ∈ as, ∃ b ∈ bs, R a b := by
  induction h with
  | nil => nofun
  | cons hab _ ih =>
    refine List.forall_mem_cons.mpr ⟨⟨_, List.mem_cons_self, hab⟩, fun a ha => ?_⟩
    obtain ⟨b, hb, hR⟩ := ih a ha
    exact ⟨b, List.mem_cons_of_mem _ hb, hR⟩

theorem versionField_ne_depthField : versionField ≠ depthField := by
  decide

section Names

variable {seen : List (String × Setting)} {s behindColon : List UInt8} {u : Taken Setting}

theorem any_seen_iff {name : String} :
    (seen.any fun p => p.1 == name) = true ↔ name ∈ seen.map Prod.fst := by
  simp

theorem scan_afterColon (hcolon : colon s = .ok behindColon) {α : Type} (reader : Reader α) :
    (afterColon reader).scan s = reader.scan behindColon := by
  show (do reader.scan (← colon s)) = _
  rw [hcolon]
  rfl

theorem ite_error_eq_ok_iff {α : Type} {known : Prop} [Decidable known] {fault : Fault}
    {x : Except Fault α} {a : α} :
    (if known then .error fault else x) = .ok a ↔ ¬known ∧ x = .ok a := by
  split
  · rename_i h
    exact iff_of_false nofun fun hnot => hnot.1 h
  · rename_i h
    exact ⟨fun hx => ⟨h, hx⟩, And.right⟩

theorem readSetting_version_iff (hcolon : colon s = .ok behindColon) :
    (readSetting seen versionField).scan s = .ok u
      ↔ versionField ∉ seen.map Prod.fst
        ∧ (readText.scan behindColon).map (Taken.map .version) = .ok u := by
  rw [← any_seen_iff]
  simp only [readSetting, ne_eq, not_true_eq_false, false_and, if_false, if_true,
    scan_afterColon hcolon]
  exact ite_error_eq_ok_iff

theorem readSetting_depth_iff (hcolon : colon s = .ok behindColon) :
    (readSetting seen depthField).scan s = .ok u
      ↔ depthField ∉ seen.map Prod.fst
        ∧ (readWord.scan behindColon).map (Taken.map .depth) = .ok u := by
  rw [← any_seen_iff]
  simp only [readSetting, ne_eq, not_true_eq_false, and_false, if_false,
    versionField_ne_depthField.symm, scan_afterColon hcolon]
  exact ite_error_eq_ok_iff

theorem readSetting_unknown {name : String} (hversion : name ≠ versionField)
    (hdepth : name ≠ depthField) : (readSetting seen name).scan s ≠ .ok u := by
  intro h
  simp only [readSetting, ne_eq, hversion, hdepth, not_false_eq_true, and_self, if_true] at h
  cases h

/-- A setting is read just where a member is read that gives it, and whose name is new. -/
theorem readSetting_eq_ok_iff {part : Option (Reader Value)} {m : Member} {rest : List UInt8}
    (hcolon : colon s = .ok behindColon)
    (hvalue : (readWith .stream part).scan behindColon = .ok ⟨m.value, rest⟩) :
    (readSetting seen m.key).scan s = .ok u
      ↔ m.key ∉ seen.map Prod.fst ∧ Gives m u.value ∧ rest = u.rest := by
  obtain ⟨setting, rest'⟩ := u
  by_cases hversion : m.key = versionField
  · rw [hversion, readSetting_version_iff hcolon, map_eq_ok]
    refine and_congr_right fun _ => ⟨?_, ?_⟩
    · rintro ⟨⟨text, _⟩, htext, heq⟩
      cases heq
      obtain ⟨htext, hrest⟩ := (readText_eq_ok_iff hvalue).mp htext
      exact ⟨.version hversion htext, hrest⟩
    · rintro ⟨hgives, hrest⟩
      cases hgives with
      | version _ htext => exact ⟨_, (readText_eq_ok_iff hvalue).mpr ⟨htext, hrest⟩, rfl⟩
      | depth hdepth _ => exact absurd (hversion.symm.trans hdepth) versionField_ne_depthField
  by_cases hdepth : m.key = depthField
  · rw [hdepth, readSetting_depth_iff hcolon, map_eq_ok]
    refine and_congr_right fun _ => ⟨?_, ?_⟩
    · rintro ⟨⟨limit, _⟩, hlimit, heq⟩
      cases heq
      obtain ⟨hlimit, hrest⟩ := (readWord_eq_ok_iff hvalue).mp hlimit
      exact ⟨.depth hdepth hlimit, hrest⟩
    · rintro ⟨hgives, hrest⟩
      cases hgives with
      | version hversion' _ => exact absurd hversion' hversion
      | depth _ hlimit => exact ⟨_, (readWord_eq_ok_iff hvalue).mpr ⟨hlimit, hrest⟩, rfl⟩
  refine iff_of_false (readSetting_unknown hversion hdepth) ?_
  rintro ⟨-, hgives, -⟩
  cases hgives with
  | version hversion' _ => exact hversion hversion'
  | depth hdepth' _ => exact hdepth hdepth'

end Names

/-- **`readMembers_readSetting_iff`** -- settings are read just where members are listed that give
them, each name once. -/
theorem readMembers_readSetting_iff {part : Option (Reader Value)} {first : Bool}
    {s rest : List UInt8} {written : List Member}
    (h : Lists (readWith .stream part) first s written rest) {seen : List (String × Setting)}
    {u : Taken (List (String × Setting))} :
    readMembers .stream readSetting first seen s = .ok u
      ↔ (written.map Member.key).Nodup ∧ (∀ m ∈ written, m.key ∉ seen.map Prod.fst)
        ∧ ∃ settings, Told written settings ∧ u = ⟨seen.reverse ++ settings, rest⟩ := by
  -- Names that were read are new for all that follow, so those seen so far are general.
  induction h generalizing seen with
  | closed hclosed =>
    rw [readMembers_closed hclosed]
    constructor
    · rintro heq
      cases heq
      exact ⟨List.nodup_nil, nofun, [], .nil, by rw [List.append_nil]⟩
    · rintro ⟨-, -, settings, htold, rfl⟩
      cases htold
      rw [List.append_nil]
  | @entry first s behindMark behindColon rest key t written hnext hkey hcolon hvalue _ ih =>
    rw [readMembers_entry_eq_ok_iff hnext hkey]
    let m : Member := ⟨key.value, t.value, front (skipBlanks behindColon) t.rest⟩
    have hstep (u : Taken Setting) : (readSetting seen key.value).scan key.rest = .ok u
        ↔ m.key ∉ seen.map Prod.fst ∧ Gives m u.value ∧ t.rest = u.rest :=
      readSetting_eq_ok_iff (m := m) hcolon hvalue
    rw [List.map_cons, List.nodup_cons, List.forall_mem_cons]
    constructor
    · rintro ⟨v, hv, hmore⟩
      obtain ⟨hnew, hgives, hrest⟩ := (hstep v).mp hv
      rw [← hrest, ih] at hmore
      obtain ⟨hnodup, hnews, settings, htold, rfl⟩ := hmore
      simp only [List.map_cons, List.mem_cons, not_or] at hnews
      refine ⟨⟨fun hmem => ?_, hnodup⟩, ⟨hnew, fun n hn => (hnews n hn).2⟩,
        (key.value, v.value) :: settings, .cons ⟨rfl, hgives⟩ htold, ?_⟩
      · obtain ⟨n, hn, heq⟩ := List.mem_map.mp hmem
        exact (hnews n hn).1 heq
      · rw [List.reverse_cons, List.append_assoc, List.singleton_append]
    · rintro ⟨⟨hkeys, hnodup⟩, ⟨hnew, hnews⟩, settings, htold, rfl⟩
      cases htold with
      | @cons _ p _ settings hfirst htold =>
        obtain ⟨name, setting⟩ := p
        obtain ⟨rfl, hgives⟩ := hfirst
        refine ⟨⟨setting, t.rest⟩, (hstep _).mpr ⟨hnew, hgives, rfl⟩, ?_⟩
        rw [ih]
        refine ⟨hnodup, fun n hn => ?_, settings, htold, ?_⟩
        · simp only [List.map_cons, List.mem_cons, not_or]
          exact ⟨fun heq => hkeys (List.mem_map.mpr ⟨n, hn, heq⟩), hnews n hn⟩
        · rw [List.reverse_cons, List.append_assoc, List.singleton_append]

/-! ## Settings over the defaults -/

/-- A **`Field`** of options -- its name, how it is read off options, off a setting, and as a value
it is written as. A setting either tells the field or leaves it as it was. -/
structure Field (β : Type) where
  name : String
  get : Options → β
  told? : Setting → Option β
  asValue : β → Value
  asValue_injective : ∀ {b c}, asValue b = asValue c → b = c
  get_set : ∀ o setting, get (o.set setting) = (told? setting).getD (get o)
  of_gives : ∀ {m setting}, Gives m setting →
    m.key = name ∧ (∃ b, told? setting = some b ∧ m.value = asValue b)
      ∨ m.key ≠ name ∧ told? setting = none

/-- The field of the version. -/
def versionIn : Field String where
  name := versionField
  get := schemaVersion
  told?
    | .version text => some text
    | .depth _ => none
  asValue := .string
  asValue_injective := Value.string.inj
  get_set o setting := by cases setting <;> rfl
  of_gives h := by
    cases h with
    | version hkey htext => exact .inl ⟨hkey, _, rfl, htext⟩
    | depth hkey _ => exact .inr ⟨hkey ▸ versionField_ne_depthField.symm, rfl⟩

/-- The field of the limit. -/
def depthIn : Field UInt64 where
  name := depthField
  get := maxDepth
  told?
    | .version _ => none
    | .depth limit => some limit
  asValue limit := .number (.integer limit.toNat)
  asValue_injective h := by
    have hinteger := Number.integer.inj (Value.number.inj h)
    exact UInt64.toNat_inj.mp (Int.ofNat_inj.mp hinteger)
  get_set o setting := by cases setting <;> rfl
  of_gives h := by
    cases h with
    | version hkey _ => exact .inr ⟨hkey ▸ versionField_ne_depthField, rfl⟩
    | depth hkey hlimit => exact .inl ⟨hkey, _, rfl, hlimit⟩

section Fields

variable {β : Type} (field : Field β) {written : List Member} {settings : List (String × Setting)}

/-- What no setting tells stays as it is. -/
theorem Field.get_foldl_of_none (hnone : ∀ p ∈ settings, field.told? p.2 = none) (o : Options) :
    field.get (settings.foldl (fun o p => o.set p.2) o) = field.get o := by
  induction settings generalizing o with
  | nil => rfl
  | cons p settings ih =>
    rw [List.forall_mem_cons] at hnone
    rw [List.foldl_cons, ih hnone.2, field.get_set, hnone.1, Option.getD_none]

/-- What is told somewhere, and nowhere otherwise, is what comes out. The settings agree, so their
order does not matter. -/
theorem Field.get_foldl_of_mem {b : β} (htold : ∃ p ∈ settings, field.told? p.2 = some b)
    (hagree : ∀ p ∈ settings, ∀ c, field.told? p.2 = some c → c = b) (o : Options) :
    field.get (settings.foldl (fun o p => o.set p.2) o) = b := by
  induction settings generalizing o with
  | nil =>
    obtain ⟨p, hp, -⟩ := htold
    exact absurd hp List.not_mem_nil
  | cons p settings ih =>
    rw [List.forall_mem_cons] at hagree
    rw [List.foldl_cons]
    -- The last setting that tells the field decides, whether it is this one or a later one.
    by_cases hlater : ∃ q ∈ settings, field.told? q.2 = some b
    · exact ih hlater hagree.2 _
    · have hnone : ∀ q ∈ settings, field.told? q.2 = none := by
        intro q hq
        by_contra hsome
        obtain ⟨c, hc⟩ := Option.ne_none_iff_exists'.mp hsome
        exact hlater ⟨q, hq, hagree.2 q hq c hc ▸ hc⟩
      have hfirst : field.told? p.2 = some b := by
        obtain ⟨q, hq, hb⟩ := htold
        rcases List.mem_cons.mp hq with rfl | hq
        · exact hb
        · exact absurd ⟨q, hq, hb⟩ hlater
      rw [field.get_foldl_of_none hnone, field.get_set, hfirst, Option.getD_some]

/-- What a setting tells of a field stands in a member. -/
theorem Field.exists_member (h : Told written settings) {p : String × Setting} (hp : p ∈ settings)
    {b : β} (hb : field.told? p.2 = some b) :
    ∃ m ∈ written, m.key = field.name ∧ m.value = field.asValue b := by
  obtain ⟨m, hm, -, hgives⟩ := exists_of_mem_of_forall₂ h.flip p hp
  rcases field.of_gives hgives with ⟨hkey, c, hc, hvalue⟩ | ⟨-, hnone⟩
  · rw [hc] at hb
    cases hb
    exact ⟨m, hm, hkey, hvalue⟩
  · rw [hnone] at hb
    cases hb

/-- **`Field.get_overlay`** -- over the defaults, a field is what its member holds. -/
theorem Field.get_overlay (honce : (written.map Member.key).Nodup) (h : Told written settings)
    {m : Member} (hm : m ∈ written) (hkey : m.key = field.name) :
    m.value = field.asValue (field.get (overlay settings)) := by
  obtain ⟨p, hp, -, hgives⟩ := exists_of_mem_of_forall₂ h m hm
  rcases field.of_gives hgives with ⟨-, b, hb, hvalue⟩ | ⟨hne, -⟩
  · -- Another setting for the field would come from a member with the same name.
    have hagree : ∀ q ∈ settings, ∀ c, field.told? q.2 = some c → c = b := by
      intro q hq c hc
      obtain ⟨n, hn, hname, hcvalue⟩ := field.exists_member h hq hc
      obtain rfl := List.inj_on_of_nodup_map honce hn hm (hname.trans hkey.symm)
      exact field.asValue_injective (hcvalue.symm.trans hvalue)
    have hget : field.get (overlay settings) = b :=
      field.get_foldl_of_mem ⟨p, hp, hb⟩ hagree standard
    rw [hvalue, hget]
  · exact absurd hkey hne

/-- Without a member for it, a field is the standard one. -/
theorem Field.get_overlay_of_absent (h : Told written settings)
    (habsent : field.name ∉ written.map Member.key) :
    field.get (overlay settings) = field.get standard := by
  refine field.get_foldl_of_none (fun p hp => ?_) standard
  by_contra hsome
  obtain ⟨b, hb⟩ := Option.ne_none_iff_exists'.mp hsome
  obtain ⟨m, hm, hkey, -⟩ := field.exists_member h hp hb
  exact habsent (List.mem_map.mpr ⟨m, hm, hkey⟩)

end Fields

end ChapterCheck.Options
